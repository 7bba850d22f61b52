import ServerCore.Network.SessionTokens

namespace ServerCore.Network

open Framework

variable {T S : Type} [DecidableEq T] [DecidableEq S]

/-- An assertion about a session and one about each of its frames. -/
structure Assertion (T S : Type) where
  session : Session T S → Prop
  frame : Session T S → Frame T → Prop

def Assertion.Holds (A : Assertion T S) (x : S) (s : SystemConf T S) : Prop :=
  A.session (s.mem.session x) ∧ ∀ u g, (x, g) ∈ s.frames u → A.frame (s.mem.session x) g

section Rule

variable [Fintype T] {m : Machine T (System T S) (SessionFrame T S) (Choice T S)}

/-- The top frame `f` of a thread and a frame `g` elsewhere share every token of session `x`. -/
def Beside (x : S) (s : SystemConf T S) (f g : Frame T) : Prop :=
  ∀ p : Potential T S, p.session (s.mem.session x) + p.frame f + p.frame g ≤ p.total x s

omit [DecidableEq T] in
theorem Potential.le_total (p : Potential T S) {x : S} {s : SystemConf T S} {u : T}
    {g : Frame T} (hg : (x, g) ∈ s.frames u) :
    p.session (s.mem.session x) + p.frame g ≤ p.total x s := by
  have h := le_count hg p.frame
  simp only [Potential.total]
  omega

theorem beside_of_other {x : S} {s : SystemConf T S} {t u : T} {f g : Frame T}
    {fs : List (SessionFrame T S)} (hf : s.frames t = (x, f) :: fs)
    (hg : Other s.frames t fs u (x, g)) : Beside x s f g := by
  intro p
  have h := hg.weight hf (ofSession x p.frame)
  simp only [ofSession, if_true] at h
  simp only [Potential.total, count]
  omega

/-- An assertion holds in every reached state if the steps of session `x` keep it, for the
frame that moves and for the frames beside it. -/
theorem Assertion.reach [Specified m] {A : Assertion T S} {x : S}
    {recvPool sendPool : RegisteredBufferPool T}
    {ok : SystemConf T S → Action T (Choice T S) → Prop} {s : SystemConf T S}
    (h : m.Reach ok (start recvPool sendPool) s)
    (init : A.session .construct)
    (step : ∀ (s : SystemConf T S) t c f fs mem new, m.Reach ok (start recvPool sendPool) s →
      ok s (.step t c) → s.frames t = (x, f) :: fs → FrameStep x t s.mem f c mem new →
      A.session (s.mem.session x) → A.frame (s.mem.session x) f →
        A.session (mem.session x) ∧ ∀ g ∈ new, A.frame (mem.session x) g)
    (beside : ∀ (s : SystemConf T S) t c f fs mem new u g,
      m.Reach ok (start recvPool sendPool) s → s.frames t = (x, f) :: fs →
      (x, g) ∈ s.frames u → FrameStep x t s.mem f c mem new → Beside x s f g →
      A.frame (s.mem.session x) f → A.frame (s.mem.session x) g → A.frame (mem.session x) g)
    (enter : ∀ (s : SystemConf T S) t c f mem, m.Reach ok (start recvPool sendPool) s → ok s (.enter t c) →
      EnterStep s.mem s.frames c mem x f → A.session (s.mem.session x) →
        A.session (mem.session x) ∧ A.frame (mem.session x) f ∧
        ∀ u g, (x, g) ∈ s.frames u → A.frame (s.mem.session x) g → A.frame (mem.session x) g)
    (env : ∀ (s : SystemConf T S) mem, EnvStep s.mem mem → A.session (s.mem.session x) →
        A.session (mem.session x) ∧
        ∀ u g, (x, g) ∈ s.frames u → A.frame (s.mem.session x) g → A.frame (mem.session x) g) :
    A.Holds x s := by
  apply h.invariant (A.Holds x) ⟨init, fun u g hg => absurd hg List.not_mem_nil⟩
  intro s a s' hr hs hok hnext
  rcases next_view x hnext with hmove | hother
  · cases hmove with
    | step t c f fs new mem hf hstep =>
      have htop := hs.2 t f (by simp [hf])
      have hown := step s t c f fs mem new hr hok hf hstep hs.1 htop
      refine ⟨hown.1, ?_⟩
      intro u g hg
      rcases mem_update _ hg with ⟨_, hg⟩ | hg
      · obtain ⟨g', hg', he⟩ := List.mem_map.mp hg
        cases he
        exact hown.2 g hg'
      · exact beside s t c f fs mem new u g hr hf (hg.mem hf) hstep (beside_of_other hf hg) htop
          (hs.2 u g (hg.mem hf))
    | enter t c f mem hstep =>
      have hown := enter s t c f mem hr hok hstep hs.1
      refine ⟨hown.1, ?_⟩
      intro u g hg
      rcases mem_push hg with hg | hg
      · obtain rfl := (Prod.mk.inj hg).2
        exact hown.2.1
      · exact hown.2.2 u g hg (hs.2 u g hg)
    | env c mem hstep =>
      have hown := env s mem hstep hs.1
      exact ⟨hown.1, fun u g hg => hown.2 u g hg (hs.2 u g hg)⟩
  · refine ⟨by rw [hother.session]; exact hs.1, ?_⟩
    intro u g hg
    rw [hother.session]
    exact hs.2 u g (hother.frames u g hg)

end Rule

/-- The frame is inside `Send`, `RegisterSend` or `ProcessSend`. -/
def Frame.inSend : Frame T → Bool
  | .send _ => true
  | .disconnect (.disconnect cause) => cause.ofSend
  | _ => false

/-- The frame is inside `RegisterRecv` or `ProcessRecv`, past the call. -/
def Frame.inRecv : Frame T → Bool
  | .recv .register => false
  | .recv _ => true
  | _ => false

/-- A step as the send side of its session sees it. -/
inductive SendEffect (this : S) (t : T) (connected : Bool) (s : SendSide T S) :
    Frame T → Choice T S → SendSide T S → List (Frame T) → Prop
  | send (f c s' new) : SendStep this t connected s f c s' new →
      SendEffect this t connected s (.send f) c s' new
  | packetCount (c) :
      SendEffect this t connected s (.destroy .packetCount) c { s with mPacketCount := 0 } []
  | buffer (f c b new) : (∀ g, f ≠ .send g) → (∀ g ∈ new, g.inSend = false) →
      b = s.mSendBuffer ∨ f = .connect (.assign .send b) ∨
        f = .destroy .sendBuffer ∧ b = none →
      SendEffect this t connected s f c { s with mSendBuffer := b } new

/-- A step as the receive side of its session sees it. -/
inductive RecvEffect (this : S) (connected : Bool) (s : RecvSide S) :
    Frame T → RecvSide S → List (Frame T) → Prop
  | recv (f s' new) : RecvStep this connected s f s' new →
      RecvEffect this connected s (.recv f) s' new
  | buffer (f b new) : (∀ g, f ≠ .recv g) → (∀ g ∈ new, g.inRecv = false) →
      b = s.mRecvBuffer ∨ f = .connect (.assign .recv b) ∨
        f = .destroy .recvBuffer ∧ b = none →
      RecvEffect this connected s f { s with mRecvBuffer := b } new

omit [DecidableEq T] in
/-- The frames that follow when a shared pointer is overwritten. -/
theorem forall_releaseFrames {P : Frame T → Prop} (pool : Pool) (b : Option NetworkBuffer)
    (f : Frame T) (hreset : ∀ c, b = some c → P (.destroy (.reset pool c))) (hf : P f) :
    ∀ g ∈ releaseFrames pool b ++ [f], P g := by
  cases b with
  | none => simpa [releaseFrames] using hf
  | some c => simpa [releaseFrames] using ⟨hreset c rfl, hf⟩

theorem FrameStep.sendSide {this : S} {t : T} {σ σ' : System T S} {f : Frame T} {c : Choice T S}
    {new : List (Frame T)} (h : FrameStep this t σ f c σ' new) :
    SendEffect this t (σ.session this).mIsConnected (σ.session this).send f c
      (σ'.session this).send new := by
  cases h with
  | send f c s' new h => simpa using SendEffect.send f c s' new h
  | recv f c s' new h =>
    rw [System.set_session_self]
    refine .buffer _ _ _ _ (by simp) ?_ (.inl rfl)
    cases h with
    | recvFail n cause hc => simpa [Frame.inSend] using hc
    | _ => simp [Frame.inSend, Cause.ofSend]
  | connect f c σ' new h =>
    cases h with
    | assign pool b =>
      have hnew := forall_releaseFrames (P := fun g : Frame T => g.inSend = false) pool
        ((σ.session this).buffer pool) (.connect (afterAssign pool b)) (fun _ _ => rfl) rfl
      cases pool with
      | recv => simpa using SendEffect.buffer _ c _ _ (by simp) hnew (.inl rfl)
      | send => simpa using SendEffect.buffer _ c b _ (by simp) hnew (.inr (.inl rfl))
    | _ =>
      simpa [Session.record] using
        SendEffect.buffer _ c _ _ (by simp) (by simp [Frame.inSend, Cause.ofSend]) (.inl rfl)
  | disconnect f c σ' new h =>
    cases h <;> simpa [Session.record] using
      SendEffect.buffer _ c _ _ (by simp) (by simp [Frame.inSend]) (.inl rfl)
  | destroy f c σ' new h =>
    have hnew (pool : Pool) (f : DestroyFrame) :=
      forall_releaseFrames (P := fun g : Frame T => g.inSend = false) pool
        ((σ.session this).buffer pool) (.destroy f) (fun _ _ => rfl) rfl
    cases h with
    | recvBuffer => simpa using SendEffect.buffer _ c _ _ (by simp) (hnew _ _) (.inl rfl)
    | sendBuffer =>
      simpa using SendEffect.buffer _ c none _ (by simp) (hnew _ _) (.inr (.inr ⟨rfl, rfl⟩))
    | packetCount => simpa using SendEffect.packetCount c
    | _ => simpa using SendEffect.buffer _ c _ _ (by simp) (by simp [Frame.inSend]) (.inl rfl)

theorem FrameStep.recvSide {this : S} {t : T} {σ σ' : System T S} {f : Frame T} {c : Choice T S}
    {new : List (Frame T)} (h : FrameStep this t σ f c σ' new) :
    RecvEffect this (σ.session this).mIsConnected (σ.session this).recv f
      (σ'.session this).recv new := by
  cases h with
  | send f c s' new h =>
    rw [System.set_session_self]
    refine .buffer _ _ _ (by simp) ?_ (.inl rfl)
    cases h <;> simp [Frame.inRecv]
  | recv f c s' new h => simpa using RecvEffect.recv f s' new h
  | connect f c σ' new h =>
    cases h with
    | assign pool b =>
      have hnew := forall_releaseFrames (P := fun g : Frame T => g.inRecv = false) pool
        ((σ.session this).buffer pool) (.connect (afterAssign pool b)) (fun _ _ => rfl) rfl
      cases pool with
      | recv => simpa using RecvEffect.buffer _ b _ (by simp) hnew (.inr (.inl rfl))
      | send => simpa using RecvEffect.buffer _ _ _ (by simp) hnew (.inl rfl)
    | _ =>
      simpa [Session.record] using
        RecvEffect.buffer _ _ _ (by simp) (by simp [Frame.inRecv]) (.inl rfl)
  | disconnect f c σ' new h =>
    cases h <;> simpa [Session.record] using
      RecvEffect.buffer _ _ _ (by simp) (by simp [Frame.inRecv]) (.inl rfl)
  | destroy f c σ' new h =>
    have hnew (pool : Pool) (f : DestroyFrame) :=
      forall_releaseFrames (P := fun g : Frame T => g.inRecv = false) pool
        ((σ.session this).buffer pool) (.destroy f) (fun _ _ => rfl) rfl
    cases h with
    | recvBuffer =>
      simpa using RecvEffect.buffer _ none _ (by simp) (hnew _ _) (.inr (.inr ⟨rfl, rfl⟩))
    | sendBuffer => simpa using RecvEffect.buffer _ _ _ (by simp) (hnew _ _) (.inl rfl)
    | _ => simpa using RecvEffect.buffer _ _ _ (by simp) (by simp [Frame.inRecv]) (.inl rfl)

/-- Only `ProcessConnect` sets `mIsConnected`. -/
theorem FrameStep.connected {this : S} {t : T} {σ σ' : System T S} {f : Frame T} {c : Choice T S}
    {new : List (Frame T)} (h : FrameStep this t σ f c σ' new) (hf : f ≠ .connect .processConnect) :
    (σ'.session this).mIsConnected = true → (σ.session this).mIsConnected = true := by
  cases h with
  | send f c s' new h => cases h <;> simp
  | recv f c s' new h => cases h <;> simp
  | connect f c σ' new h => cases h <;> simp [Session.record] at hf ⊢
  | disconnect f c σ' new h => cases h <;> simp [Session.record]
  | destroy f c σ' new h => cases h <;> simp

theorem FrameStep.destroyed {this : S} {t : T} {σ σ' : System T S} {f : Frame T} {c : Choice T S}
    {new : List (Frame T)} (h : FrameStep this t σ f c σ' new) :
    (σ'.session this).destroyed = (σ.session this).destroyed := by
  cases h with
  | send f c s' new h => simp
  | recv f c s' new h => simp
  | connect f c σ' new h => cases h <;> simp [Session.record]
  | disconnect f c σ' new h => cases h <;> simp [Session.record]
  | destroy f c σ' new h => cases h <;> simp

omit [DecidableEq T] in
theorem EnterStep.not_destroyed {this : S} {σ σ' : System T S}
    {frames : T → List (SessionFrame T S)} {c : Choice T S} {f : Frame T} (h : EnterStep σ frames c σ' this f) :
    (σ'.session this).destroyed = false → (σ.session this).destroyed = false := by
  cases h <;> simp

omit [DecidableEq T] in
/-- What entering a function does to the two sides of its session. -/
theorem EnterStep.sides {this : S} {σ σ' : System T S} {frames : T → List (SessionFrame T S)}
    {c : Choice T S} {f : Frame T} (h : EnterStep σ frames c σ' this f) :
    ((σ'.session this).send = (σ.session this).send ∧
        (σ'.session this).recv = (σ.session this).recv) ∨
      (∃ n region rest, f = .recv (.dispatch n) ∧
        (σ.session this).recv.outstanding = region :: rest ∧ (n : Int) ≤ region.length ∧
        (σ'.session this).send = (σ.session this).send ∧
        (σ'.session this).recv = { (σ.session this).recv with outstanding := rest }) ∨
      ∃ n post rest, f = .send (.dispatch n) ∧
        (σ.session this).send.outstanding = post :: rest ∧ (n : Int) ≤ post.region.length ∧
        (σ'.session this).recv = (σ.session this).recv ∧
        (σ'.session this).send = { (σ.session this).send with outstanding := rest } := by
  cases h with
  | received this n region rest ho hn =>
    exact .inr (.inl ⟨n, region, rest, rfl, ho, hn, by simp, by simp⟩)
  | sent this n post rest ho hn =>
    exact .inr (.inr ⟨n, post, rest, rfl, ho, hn, by simp, by simp⟩)
  | _ => exact .inl ⟨by simp, by simp⟩

/-- An outstanding receive, or one about to be posted, holds its session. -/
def recvContext (x : S) : Assertion T S where
  session s := s.recv.outstanding ≠ [] → s.recv.mRioRecvContext.mDispatcher = some x
  frame s f := f = .recv .post → s.recv.mRioRecvContext.mDispatcher = some x

/-- The frame uses a send context that was set up for it. -/
def Frame.posting : Frame T → Bool
  | .send (.dequeue _) | .send (.copy ..) | .send (.post ..) => true
  | _ => false

omit [DecidableEq T] in
theorem Frame.posting_of_inSend {f : Frame T} (h : f.inSend = false) : f.posting = false := by
  cases f with
  | send f => simp [Frame.inSend] at h
  | _ => rfl

omit [DecidableEq T] in
theorem Frame.sendToken_of_posting {f : Frame T} (h : f.posting = true) : f.sendToken = 1 := by
  cases f with
  | send f => cases f <;> first | rfl | simp [Frame.posting] at h
  | _ => simp [Frame.posting] at h

omit [DecidableEq S] in
/-- Without the send token a step leaves the buffer, its context and the sends alone. -/
theorem SendStep.quiet {this : S} {t : T} {connected : Bool} {s s' : SendSide T S}
    {f : SendFrame T} {c : Choice T S} {new : List (Frame T)}
    (h : SendStep this t connected s f c s' new) (hf : f.token = 0) :
    s'.mSendBuffer = s.mSendBuffer ∧ s'.mRioSendContext = s.mRioSendContext ∧
      s'.outstanding = s.outstanding ∧ s'.posted = s.posted := by
  cases h <;> first | exact ⟨rfl, rfl, rfl, rfl⟩ | simp [SendFrame.token] at hf

/-- An outstanding send, or one about to be posted, holds its session. -/
def sendContext (x : S) : Assertion T S where
  session s := s.send.outstanding ≠ [] → s.send.mRioSendContext.mDispatcher = some x
  frame s f := f.posting = true → s.send.mRioSendContext.mDispatcher = some x

section

variable [Fintype T] {m : Machine T (System T S) (SessionFrame T S) (Choice T S)} [Specified m]
  {recvPool sendPool : RegisteredBufferPool T}
  {ok : SystemConf T S → Action T (Choice T S) → Prop} {s : SystemConf T S}

theorem recvContext_reach (h : m.Reach ok (start recvPool sendPool) s) (x : S) :
    (recvContext x).Holds x s := by
  refine Assertion.reach h ?init ?step ?beside ?enter ?env
  case init => simp [recvContext, Session.construct]
  case step =>
    intro s t c f fs mem new hr _ hf hstep hs htop
    have htoken := (recvToken.le_total (u := t) (g := f) (by simp [hf])).trans (recvToken_le hr x)
    have heffect := hstep.recvSide
    simp only [recvToken] at htoken
    simp only [recvContext] at hs htop ⊢
    generalize (mem.session x).recv = s' at heffect ⊢
    cases heffect with
    | recv f s' new h =>
      have hnone : (s.mem.session x).recv.outstanding = [] := by
        simp only [Frame.recvToken] at htoken
        exact List.length_eq_zero_iff.mp (by omega)
      cases h <;> simp_all
    | buffer f b new _ hnew _ =>
      refine ⟨hs, ?_⟩
      intro g hg hpost
      simpa [hpost, Frame.inRecv] using hnew g hg
  case beside =>
    intro s t c f fs mem new u g hr hf _ hstep hb htop hg hpost
    have htoken := (hb recvToken).trans (recvToken_le hr x)
    have heffect := hstep.recvSide
    simp only [recvToken] at htoken
    simp only [recvContext] at hg ⊢
    generalize (mem.session x).recv = s' at heffect ⊢
    cases heffect with
    | recv f s' new h =>
      subst hpost
      simp only [Frame.recvToken] at htoken
      omega
    | buffer f b new _ hnew _ => exact hg hpost
  case enter =>
    intro s t c f mem hr _ hstep hs
    simp only [recvContext] at hs ⊢
    have hf : f ≠ .recv .post := by cases hstep <;> simp
    rcases hstep.sides with ⟨_, he⟩ | ⟨n, region, rest, rfl, ho, _, _, he⟩ | ⟨_, _, _, _, _, _, he, _⟩
    · rw [he]
      exact ⟨hs, fun hp => absurd hp hf, fun u g _ hg => hg⟩
    · rw [he]
      exact ⟨fun _ => hs (by simp [ho]), fun hp => absurd hp hf, fun u g _ hg => hg⟩
    · rw [he]
      exact ⟨hs, fun hp => absurd hp hf, fun u g _ hg => hg⟩
  case env =>
    intro s mem hstep hs
    obtain ⟨_, _, he, _⟩ := hstep.session x
    rw [he]
    exact ⟨hs, fun u g _ hg => hg⟩

theorem sendContext_reach (h : m.Reach ok (start recvPool sendPool) s) (x : S) :
    (sendContext x).Holds x s := by
  refine Assertion.reach h ?init ?step ?beside ?enter ?env
  case init => simp [sendContext, Session.construct]
  case step =>
    intro s t c f fs mem new hr _ hf hstep hs htop
    have htoken := (sendToken.le_total (u := t) (g := f) (by simp [hf])).trans (sendToken_le hr x)
    have heffect := hstep.sendSide
    simp only [sendToken] at htoken
    simp only [sendContext] at hs htop ⊢
    generalize (mem.session x).send = s' at heffect ⊢
    cases heffect with
    | send f c s' new h =>
      cases h <;> simp_all [Frame.posting, Frame.sendToken, SendFrame.token]
    | packetCount c => exact ⟨hs, by simp⟩
    | buffer f c b new _ hnew _ =>
      refine ⟨hs, ?_⟩
      intro g hg hpost
      simp [Frame.posting_of_inSend (hnew g hg)] at hpost
  case beside =>
    intro s t c f fs mem new u g hr hf _ hstep hb htop hg hpost
    have htoken := (hb sendToken).trans (sendToken_le hr x)
    have heffect := hstep.sendSide
    simp only [sendToken, Frame.sendToken_of_posting hpost] at htoken
    simp only [sendContext] at hg ⊢
    generalize (mem.session x).send = s' at heffect ⊢
    cases heffect with
    | send f c s' new h =>
      rw [(h.quiet (by simp only [Frame.sendToken] at htoken; omega)).2.1]
      exact hg hpost
    | packetCount c => exact hg hpost
    | buffer f c b new _ hnew _ => exact hg hpost
  case enter =>
    intro s t c f mem hr _ hstep hs
    simp only [sendContext] at hs ⊢
    have hf : f.posting = false := by cases hstep <;> rfl
    rcases hstep.sides with ⟨he, _⟩ | ⟨_, _, _, _, _, _, he, _⟩ | ⟨n, post, rest, rfl, ho, _, _, he⟩
    · rw [he]
      exact ⟨hs, by simp [hf], fun u g _ hg => hg⟩
    · rw [he]
      exact ⟨hs, by simp [hf], fun u g _ hg => hg⟩
    · rw [he]
      exact ⟨fun _ => hs (by simp [ho]), by simp [hf], fun u g _ hg => hg⟩
  case env =>
    intro s mem hstep hs
    obtain ⟨_, _, he, _⟩ := hstep.session x
    rw [he]
    exact ⟨hs, fun u g _ hg => hg⟩

end

/-- The frame keeps its session alive. -/
def Frame.alive : Frame T → Bool
  | .destroy _ => false
  | f => f.holds

/-- The frame is in the destructor. -/
def Frame.destructor : Frame T → Bool
  | .destroy .recvBuffer | .destroy .sendBuffer | .destroy .packetCount => true
  | _ => false

/-- A destroyed session has no operation outstanding, and only the destructor runs on it. -/
def lifetime : Assertion T S where
  session s := s.destroyed = true →
    s.held = false ∧ s.recv.outstanding = [] ∧ s.send.outstanding = []
  frame s f := (f.alive = true → s.destroyed = false) ∧ (f.destructor = true → s.destroyed = true)

/-- On a destroyed session a step changes no context and posts nothing. -/
theorem FrameStep.dead {this : S} {t : T} {σ σ' : System T S} {f : Frame T} {c : Choice T S}
    {new : List (Frame T)} (h : FrameStep this t σ f c σ' new) (hf : f.alive = false)
    (hheld : (σ.session this).held = false) :
    (σ'.session this).held = false ∧
      (σ'.session this).recv.outstanding = (σ.session this).recv.outstanding ∧
      (σ'.session this).send.outstanding = (σ.session this).send.outstanding ∧
      ∀ g ∈ new, g.alive = false := by
  simp only [Session.held, Bool.or_eq_false_iff] at hheld ⊢
  cases h with
  | send f c s' new h => cases h <;> simp_all [Frame.alive, Frame.holds]
  | recv f c s' new h => cases h <;> simp_all [Frame.alive, Frame.holds]
  | connect f c σ' new h => cases h <;> simp_all [Frame.alive, Frame.holds]
  | disconnect f c σ' new h => cases h <;> simp_all [Frame.alive, Frame.holds]
  | destroy f c σ' new h =>
    have hnew (pool : Pool) (f : DestroyFrame) :=
      forall_releaseFrames (P := fun g : Frame T => g.alive = false) pool
        ((σ.session this).buffer pool) (.destroy f) (fun _ _ => rfl) rfl
    cases h with
    | recvBuffer => exact ⟨by simpa using hheld, by simp, by simp, hnew _ _⟩
    | sendBuffer => exact ⟨by simpa using hheld, by simp, by simp, hnew _ _⟩
    | _ => simp_all [Frame.alive]

/-- Only the destructor goes on in the destructor. -/
theorem FrameStep.destructor {this : S} {t : T} {σ σ' : System T S} {f : Frame T} {c : Choice T S}
    {new : List (Frame T)} (h : FrameStep this t σ f c σ' new) (hf : f.destructor = false) :
    ∀ g ∈ new, g.destructor = false := by
  cases h with
  | send f c s' new h => cases h <;> simp [Frame.destructor]
  | recv f c s' new h => cases h <;> simp [Frame.destructor]
  | connect f c σ' new h =>
    cases h with
    | assign pool b => exact forall_releaseFrames _ _ _ (fun _ _ => rfl) rfl
    | _ => simp [Frame.destructor]
  | disconnect f c σ' new h => cases h <;> simp [Frame.destructor]
  | destroy f c σ' new h => cases h <;> simp [Frame.destructor] at hf ⊢

theorem lifetime_reach [Fintype T]
    {m : Machine T (System T S) (SessionFrame T S) (Choice T S)} [Specified m]
    {recvPool sendPool : RegisteredBufferPool T}
    {ok : SystemConf T S → Action T (Choice T S) → Prop} {s : SystemConf T S}
    (h : m.Reach ok (start recvPool sendPool) s) (x : S) : lifetime.Holds x s := by
  refine Assertion.reach h ?init ?step ?beside ?enter ?env
  case init => simp [lifetime, Session.construct]
  case step =>
    intro s t c f fs mem new hr _ hf hstep hs htop
    simp only [lifetime, hstep.destroyed] at hs htop ⊢
    have hdead (hd : (s.mem.session x).destroyed = true) :=
      hstep.dead (by by_contra ha; simp [hd] at htop; simp [htop] at ha) (hs hd).1
    refine ⟨?_, fun g hg => ⟨?_, ?_⟩⟩
    · intro hd
      obtain ⟨hheld, hrecv, hsend, _⟩ := hdead hd
      exact ⟨hheld, hrecv.trans (hs hd).2.1, hsend.trans (hs hd).2.2⟩
    · intro ha
      by_contra hd
      simp [(hdead (by simpa using hd)).2.2.2 g hg] at ha
    · intro hg'
      apply htop.2
      by_contra hf'
      simp [hstep.destructor (by simpa using hf') g hg] at hg'
  case beside =>
    intro s t c f fs mem new u g hr hf _ hstep hb htop hg
    simp only [lifetime, hstep.destroyed] at hg ⊢
    exact hg
  case enter =>
    intro s t c f mem hr _ hstep hs
    simp only [lifetime] at hs ⊢
    cases hstep with
    | destroy this hd hheld _ _ hholds =>
      have hrecv := (recvContext_reach hr x).1
      have hsend := (sendContext_reach hr x).1
      simp only [recvContext, sendContext] at hrecv hsend
      simp only [Session.held, Bool.or_eq_false_iff] at hheld
      obtain ⟨⟨⟨⟨_, _⟩, hrd⟩, hsd⟩, _⟩ := hheld
      have hr0 : (s.mem.session x).recv.outstanding = [] := by
        by_contra hne
        simp [hrecv hne] at hrd
      have hs0 : (s.mem.session x).send.outstanding = [] := by
        by_contra hne
        simp [hsend hne] at hsd
      simp only [System.set_session_self]
      refine ⟨fun _ => ⟨?_, hr0, hs0⟩, by simp [Frame.alive], fun u g hg _ => ⟨?_, ?_⟩⟩
      · simp_all [Session.held]
      · intro ha
        have hfree := hholds u _ hg rfl
        cases g <;> simp_all [Frame.alive]
      · simp
    | accepted this ha =>
      simp only [System.set_session_self]
      have hlive : (s.mem.session x).destroyed = false := by
        by_contra hd
        simp [Session.held, ha] at hs
        simp [hs] at hd
      exact ⟨by simp [hlive], by simp [hlive, Frame.destructor], fun u g _ hg => hg⟩
    | received this n region rest ho _ =>
      simp only [System.set_session_self]
      refine ⟨?_, by simp [Frame.alive, Frame.holds, Frame.destructor], fun u g _ hg => hg⟩
      intro hd
      simp [(hs hd).2.1] at ho
    | sent this n post rest ho _ =>
      simp only [System.set_session_self]
      refine ⟨?_, by simp [Frame.alive, Frame.holds, Frame.destructor], fun u g _ hg => hg⟩
      intro hd
      simp [(hs hd).2.2] at ho
    | connected this hc | disconnected this hd =>
      simp only [System.set_session_self]
      exact ⟨hs, by simp [Frame.alive, Frame.holds, Frame.destructor], fun u g _ hg => hg⟩
    | send this buffer hd => exact ⟨hs, by simp [hd, Frame.destructor], fun u g _ hg => hg⟩
    | disconnect this hd | connect this hd =>
      exact ⟨hs, by simp [hd, Frame.destructor], fun u g _ hg => hg⟩
  case env =>
    intro s mem hstep hs
    obtain ⟨_, _, he, _, hacc⟩ := hstep.session x
    simp only [lifetime, he] at hs ⊢
    refine ⟨?_, fun u g _ hg => hg⟩
    intro hd
    obtain ⟨hheld, houtstanding⟩ := hs hd
    refine ⟨?_, houtstanding⟩
    simp only [Session.held, Bool.or_eq_false_iff] at hheld ⊢
    refine ⟨hheld.1, ?_⟩
    by_contra ha
    simp [hacc hd (by simpa using ha)] at hheld

section

variable [Fintype T] {m : Machine T (System T S) (SessionFrame T S) (Choice T S)} [Specified m]
  {recvPool sendPool : RegisteredBufferPool T}
  {ok : SystemConf T S → Action T (Choice T S) → Prop} {s : SystemConf T S} {x : S} {t : T}
  {f : Frame T} {fs : List (SessionFrame T S)}

/-- Who has the send token finds `mSendRegistered` set and no send outstanding. -/
theorem registered_of_token (h : m.Reach ok (start recvPool sendPool) s)
    (hf : (x, f) ∈ s.frames t) (htoken : 0 < f.sendToken) :
    (s.mem.session x).send.mSendRegistered = true ∧ (s.mem.session x).send.outstanding = [] := by
  have hle := (sendToken.le_total hf).trans (sendToken_le h x)
  simp only [sendToken] at hle
  constructor
  · by_contra hreg
    simp only [hreg, if_false] at hle
    omega
  · exact List.length_eq_zero_iff.mp (by omega)

/-- Only one frame has the send token. -/
theorem only_sender (h : m.Reach ok (start recvPool sendPool) s)
    (hf : s.frames t = (x, f) :: fs) {u : T} {g : Frame T} (hg : (x, g) ∈ s.frames u)
    (hft : 0 < f.sendToken) (hgt : 0 < g.sendToken) : g = f := by
  by_contra hne
  have hother : Other s.frames t fs u (x, g) := other_of_ne hf hg fun heq => hne (Prod.mk.inj heq).2
  have hle := (beside_of_other hf hother sendToken).trans (sendToken_le h x)
  simp only [sendToken] at hle
  omega

/-- A session is given its buffer when it has none. -/
theorem buffer_of_assign (h : m.Reach ok (start recvPool sendPool) s) {pool : Pool}
    {b : Option NetworkBuffer} (hf : s.frames t = (x, .connect (.assign pool b)) :: fs) :
    (s.mem.session x).buffer pool = none := by
  have htoken := ((bufferToken pool).le_total (x := x) (u := t) (g := .connect (.assign pool b))
    (by simp [hf])).trans (bufferToken_le h x pool)
  have hone : (ConnectFrame.assign pool b).beforeAssign pool = 1 := by cases pool <;> rfl
  simp only [bufferToken, Frame.bufferToken, hone] at htoken
  cases hb : (s.mem.session x).buffer pool with
  | none => rfl
  | some c =>
    rw [hb, Option.isSome_some, Bool.toNat_true] at htoken
    omega

/-- A step that replaces the send buffer finds none, or a destroyed session. -/
theorem sendBuffer_kept (h : m.Reach ok (start recvPool sendPool) s)
    (hf : s.frames t = (x, f) :: fs) {b : Option NetworkBuffer}
    (hb : b = (s.mem.session x).send.mSendBuffer ∨ f = .connect (.assign .send b) ∨
      f = .destroy .sendBuffer ∧ b = none) :
    b = (s.mem.session x).send.mSendBuffer ∨ (s.mem.session x).send.mSendBuffer = none ∨
      (s.mem.session x).destroyed = true := by
  rcases hb with hb | rfl | ⟨rfl, _⟩
  · exact .inl hb
  · exact .inr (.inl (buffer_of_assign h hf))
  · exact .inr (.inr (((lifetime_reach h x).2 t _ (hf ▸ List.mem_cons_self)).2 rfl))

/-- A step that replaces the receive buffer finds none, or a destroyed session. -/
theorem recvBuffer_kept (h : m.Reach ok (start recvPool sendPool) s)
    (hf : s.frames t = (x, f) :: fs) {b : Option NetworkBuffer}
    (hb : b = (s.mem.session x).recv.mRecvBuffer ∨ f = .connect (.assign .recv b) ∨
      f = .destroy .recvBuffer ∧ b = none) :
    b = (s.mem.session x).recv.mRecvBuffer ∨ (s.mem.session x).recv.mRecvBuffer = none ∨
      (s.mem.session x).destroyed = true := by
  rcases hb with hb | rfl | ⟨rfl, _⟩
  · exact .inl hb
  · exact .inr (.inl (buffer_of_assign h hf))
  · exact .inr (.inr (((lifetime_reach h x).2 t _ (hf ▸ List.mem_cons_self)).2 rfl))

end

end ServerCore.Network
