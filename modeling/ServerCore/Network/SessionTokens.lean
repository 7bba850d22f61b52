import ServerCore.Network.SessionSteps

namespace ServerCore.Network

open Framework

variable {T S : Type} [DecidableEq T] [DecidableEq S]

theorem FrameStep.other {this x : S} {t : T} {σ σ' : System T S} {f : Frame T} {c : Choice T S}
    {new : List (Frame T)} (h : FrameStep this t σ f c σ' new) (hx : x ≠ this) :
    σ'.session x = σ.session x := by
  cases h with
  | send => exact System.set_session_of_ne _ hx _
  | recv => exact System.set_session_of_ne _ hx _
  | connect f c σ' new h =>
    cases h <;> first | rfl | simp [hx]
  | disconnect f c σ' new h =>
    cases h <;> first | rfl | simp [hx]
  | destroy f c σ' new h =>
    cases h <;> first | rfl | simp [hx]

omit [DecidableEq T] in
theorem EnterStep.other {this x : S} {σ σ' : System T S} {frames : T → List (SessionFrame T S)}
    {c : Choice T S} {f : Frame T} (h : EnterStep σ frames c σ' this f) (hx : x ≠ this) :
    σ'.session x = σ.session x := by
  cases h <;> first | rfl | simp [hx]

omit [DecidableEq T] in
theorem EnvStep.other {σ σ' : System T S} (h : EnvStep σ σ') :
    ∃ this, ∀ x, x ≠ this → σ'.session x = σ.session x ∧ σ'.mSessions = σ.mSessions ∧
      σ'._sessions = σ._sessions := by
  cases h with
  | acceptEx this _ _ => exact ⟨this, fun x hx => ⟨by simp [hx], rfl, rfl⟩⟩
  | acceptFailed this _ => exact ⟨this, fun x hx => ⟨by simp [hx], rfl, rfl⟩⟩

/-- Counts a frame for session `x` only. -/
def ofSession (x : S) (w : Frame T → ℕ) (f : SessionFrame T S) : ℕ := if f.1 = x then w f.2 else 0

omit [DecidableEq T] in
@[simp] theorem stackWeight_ofSession (x this : S) (w : Frame T → ℕ) (fs : List (Frame T)) :
    stackWeight (ofSession x w) (fs.map fun g => (this, g)) =
      if this = x then stackWeight w fs else 0 := by
  induction fs with
  | nil => simp
  | cons f fs ih =>
    rw [List.map_cons, stackWeight_cons, stackWeight_cons, ih]
    by_cases h : this = x <;> simp [ofSession, h]

theorem FrameStep.registries {this x : S} {t : T} {σ σ' : System T S} {f : Frame T}
    {c : Choice T S} {new : List (Frame T)} (h : FrameStep this t σ f c σ' new) (hx : x ≠ this) :
    (x ∈ σ'.mSessions ↔ x ∈ σ.mSessions) ∧ (x ∈ σ'._sessions ↔ x ∈ σ._sessions) := by
  cases h with
  | send => exact ⟨.rfl, .rfl⟩
  | recv => exact ⟨.rfl, .rfl⟩
  | connect f c σ' new h =>
    cases h with
    | tryDequeue pool p b rest hq => cases pool <;> exact ⟨.rfl, .rfl⟩
    | useCount pool b => cases pool <;> exact ⟨.rfl, .rfl⟩
    | _ => simp [System.set, hx]
  | disconnect f c σ' new h => cases h <;> simp [System.set, hx]
  | destroy f c σ' new h =>
    cases h with
    | enqueue pool b => cases pool <;> exact ⟨.rfl, .rfl⟩
    | useCount pool => cases pool <;> exact ⟨.rfl, .rfl⟩
    | _ => simp [System.set]

omit [DecidableEq T] in
theorem EnterStep.registries {this : S} {σ σ' : System T S}
    {frames : T → List (SessionFrame T S)} {c : Choice T S} {f : Frame T} (h : EnterStep σ frames c σ' this f) :
    σ'.mSessions = σ.mSessions ∧ σ'._sessions = σ._sessions := by
  cases h <;> exact ⟨rfl, rfl⟩

/-- The measure `w` summed over the frames of session `x`. -/
def count [Fintype T] (x : S) (w : Frame T → ℕ) (s : SystemConf T S) : ℕ :=
  weight (ofSession x w) s.frames

/-- An action elsewhere leaves session `x` alone. -/
structure Elsewhere [Fintype T] (x : S) (s s' : SystemConf T S) : Prop where
  session : s'.mem.session x = s.mem.session x
  count : ∀ w, count x w s' = count x w s
  frames : ∀ u f, (x, f) ∈ s'.frames u → (x, f) ∈ s.frames u
  mSessions : x ∈ s'.mem.mSessions ↔ x ∈ s.mem.mSessions
  _sessions : x ∈ s'.mem._sessions ↔ x ∈ s.mem._sessions

/-- An action that concerns session `x`: a step of its frames, a call or the listener. -/
inductive Move (x : S) (s : SystemConf T S) :
    Action T (Choice T S) → SystemConf T S → Prop
  | step (t : T) (c f fs new mem) : s.frames t = (x, f) :: fs → FrameStep x t s.mem f c mem new →
      Move x s (.step t c) ⟨mem, Function.update s.frames t ((new.map fun g => (x, g)) ++ fs)⟩
  | enter (t : T) (c f mem) : EnterStep s.mem s.frames c mem x f →
      Move x s (.enter t c) ⟨mem, Function.update s.frames t ((x, f) :: s.frames t)⟩
  | env (c mem) : EnvStep s.mem mem → Move x s (.env c) ⟨mem, s.frames⟩

section Move

variable [Fintype T]

theorem count_step (x : S) {this : S} {s : SystemConf T S} {t : T} {f : Frame T}
    {fs : List (SessionFrame T S)} (hf : s.frames t = (this, f) :: fs) (mem : System T S)
    (new : List (Frame T)) (w : Frame T → ℕ) :
    count x w ⟨mem, Function.update s.frames t ((new.map fun g => (this, g)) ++ fs)⟩ +
        (if this = x then w f else 0) =
      count x w s + if this = x then stackWeight w new else 0 := by
  have hw := weight_step (ofSession x w) hf (new.map fun g => (this, g))
  rw [stackWeight_ofSession] at hw
  simp only [count, ofSession] at hw ⊢
  omega

theorem count_enter (x this : S) (s : SystemConf T S) (t : T) (f : Frame T) (mem : System T S)
    (w : Frame T → ℕ) :
    count x w ⟨mem, Function.update s.frames t ((this, f) :: s.frames t)⟩ =
      count x w s + if this = x then w f else 0 := by
  exact weight_enter (ofSession x w) s.frames t (this, f)

omit [DecidableEq T] in
/-- A frame has its share in the count of its session. -/
theorem le_count {x : S} {s : SystemConf T S} {t : T} {f : Frame T}
    (hf : (x, f) ∈ s.frames t) (w : Frame T → ℕ) : w f ≤ count x w s := by
  have hone := le_stackWeight (ofSession x w) hf
  have hall := le_weight (ofSession x w) s.frames t
  simp only [ofSession, if_true] at hone hall
  exact hone.trans hall

omit [DecidableEq T] in
theorem le_count_top {x : S} {s : SystemConf T S} {t : T} {f : Frame T}
    {fs : List (SessionFrame T S)} (hf : s.frames t = (x, f) :: fs) (w : Frame T → ℕ) :
    w f ≤ count x w s :=
  le_count (by rw [hf]; exact List.mem_cons_self) w

omit [DecidableEq T] in
theorem count_mono (x : S) (s : SystemConf T S) {w w' : Frame T → ℕ} (h : ∀ f, w f ≤ w' f) :
    count x w s ≤ count x w' s := by
  refine weight_mono (fun f => ?_) s.frames
  by_cases hx : f.1 = x
  · simpa [ofSession, hx] using h f.2
  · simp [ofSession, hx]

omit [DecidableEq T] in
theorem count_eq_zero {x : S} {s : SystemConf T S} {w : Frame T → ℕ} :
    count x w s = 0 ↔ ∀ u f, (x, f) ∈ s.frames u → w f = 0 := by
  rw [count, weight_eq_zero]
  constructor
  · intro h u f hf
    simpa [ofSession] using h u _ hf
  · rintro h u ⟨y, f⟩ hf
    by_cases hy : y = x
    · subst hy
      simpa [ofSession] using h u f hf
    · simp [ofSession, hy]

/-- Each action concerns one session. -/
theorem next_move {s s' : SystemConf T S} {a : Action T (Choice T S)}
    (h : machine.next s a = some s') :
    ∃ this, Move this s a s' ∧ ∀ x, x ≠ this → Elsewhere x s s' := by
  rcases Machine.next_cases h with ⟨t, c, mem, f, rfl, he, rfl⟩ |
    ⟨t, c, f, fs, mem, new, rfl, hf, he, rfl⟩ | ⟨c, mem, rfl, he, rfl⟩
  · obtain ⟨this, f⟩ := f
    have hstep : EnterStep s.mem s.frames c mem this f := enter_spec he
    refine ⟨this, .enter t c f mem hstep, ?_⟩
    intro x hx
    refine ⟨hstep.other hx, ?_, ?_, by rw [hstep.registries.1], by rw [hstep.registries.2]⟩
    · intro w
      rw [count_enter x this s t f mem w, if_neg (Ne.symm hx), Nat.add_zero]
    · intro u g hg
      rcases mem_push hg with hg | hg
      · exact absurd (Prod.mk.inj hg).1 hx
      · exact hg
  · obtain ⟨this, f⟩ := f
    obtain ⟨new, hstep, rfl⟩ := step_spec he
    refine ⟨this, .step t c f fs new mem hf hstep, ?_⟩
    intro x hx
    obtain ⟨hm, hc⟩ := hstep.registries hx
    refine ⟨hstep.other hx, ?_, ?_, hm, hc⟩
    · intro w
      have hw := count_step x hf mem new w
      simpa [Ne.symm hx] using hw
    · intro u g hg
      rcases mem_update _ hg with ⟨_, hg⟩ | hg
      · obtain ⟨g', _, he⟩ := List.mem_map.mp hg
        exact absurd (congrArg Prod.fst he).symm hx
      · exact hg.mem hf
  · have hstep := env_spec he
    obtain ⟨this, hother⟩ := hstep.other
    refine ⟨this, .env c mem hstep, ?_⟩
    intro x hx
    obtain ⟨hsame, hm, hc⟩ := hother x hx
    exact ⟨hsame, fun w => rfl, fun u f hg => hg, by rw [hm], by rw [hc]⟩

variable {m : Machine T (System T S) (SessionFrame T S) (Choice T S)} [Specified m]

theorem next_top {s s' : SystemConf T S} {t : T} {c : Choice T S} {x : S} {f : Frame T}
    {fs : List (SessionFrame T S)} (hf : s.frames t = (x, f) :: fs)
    (h : m.next s (.step t c) = some s') :
    ∃ mem new, FrameStep x t s.mem f c mem new ∧
      s' = ⟨mem, Function.update s.frames t ((new.map fun g => (x, g)) ++ fs)⟩ := by
  simp only [Machine.next, hf, Specified.step (m := m), Option.map_eq_some_iff] at h
  obtain ⟨⟨mem, new⟩, he, rfl⟩ := h
  obtain ⟨new, hstep, rfl⟩ := step_spec he
  exact ⟨mem, new, hstep, rfl⟩

theorem next_view (x : S) {s s' : SystemConf T S} {a : Action T (Choice T S)}
    (h : m.next s a = some s') : Move x s a s' ∨ Elsewhere x s s' := by
  have hview (h : machine.next s a = some s') : Move x s a s' ∨ Elsewhere x s s' := by
    obtain ⟨this, hmove, hother⟩ := next_move h
    by_cases hx : x = this
    · exact .inl (hx ▸ hmove)
    · exact .inr (hother x hx)
  cases a with
  | enter t c =>
    simp only [Machine.next, Specified.enter (m := m)] at h
    exact hview h
  | step t c =>
    simp only [Machine.next, Specified.step (m := m)] at h
    exact hview h
  | env c =>
    obtain ⟨mem, he, rfl⟩ := Option.map_eq_some_iff.mp h
    rcases Specified.env _ _ _ he with hstep | ⟨pool, q, rfl⟩
    · exact .inl (.env c mem hstep)
    · refine .inr ⟨by simp, fun w => rfl, fun u f hf => hf, ?_, ?_⟩ <;> cases pool <;> exact .rfl

end Move

/-- A share of a session in its own fields and in the frames of the threads. -/
structure Potential (T S : Type) where
  session : Session T S → ℕ
  frame : Frame T → ℕ

namespace Potential

variable [Fintype T]

def total (p : Potential T S) (x : S) (s : SystemConf T S) : ℕ :=
  p.session (s.mem.session x) + count x p.frame s

variable {m : Machine T (System T S) (SessionFrame T S) (Choice T S)} [Specified m]

/-- No step makes the potential grow. -/
structure Decreases (p : Potential T S) : Prop where
  step : ∀ (this : S) (t : T) (σ : System T S) f c σ' new, FrameStep this t σ f c σ' new →
    p.session (σ'.session this) + stackWeight p.frame new ≤
      p.session (σ.session this) + p.frame f
  enter : ∀ (σ σ' : System T S) frames c this f, EnterStep σ frames c σ' this f →
    p.session (σ'.session this) + p.frame f ≤ p.session (σ.session this)
  env : ∀ (σ σ' : System T S) x, EnvStep σ σ' → p.session (σ'.session x) ≤ p.session (σ.session x)

theorem Decreases.next {p : Potential T S} (hp : p.Decreases) (x : S) {s s' : SystemConf T S}
    {a : Action T (Choice T S)} (h : m.next s a = some s') : p.total x s' ≤ p.total x s := by
  rcases next_view x h with hmove | hother
  · cases hmove with
    | step t c f fs new mem hf hstep =>
      have hw := count_step x hf mem new p.frame
      have hle := hp.step _ _ _ _ _ _ _ hstep
      simp only [if_true] at hw
      simp only [total]
      omega
    | enter t c f mem hstep =>
      have hw := count_enter x x s t f mem p.frame
      have hle := hp.enter _ _ _ _ _ _ hstep
      simp only [if_true] at hw
      simp only [total]
      omega
    | env c mem hstep =>
      have hle := hp.env _ _ x hstep
      simp only [total, count]
      omega
  · simp only [total, hother.session, hother.count, le_refl]

/-- A potential that starts at `n` and never grows stays at `n` or below. -/
theorem Decreases.le {p : Potential T S} (hp : p.Decreases) (x : S) (n : ℕ)
    {recvPool sendPool : RegisteredBufferPool T} (hn : p.session .construct ≤ n)
    {ok : SystemConf T S → Action T (Choice T S) → Prop} {s : SystemConf T S}
    (h : m.Reach ok (start recvPool sendPool) s) : p.total x s ≤ n := by
  refine h.invariant (fun s => p.total x s ≤ n) ?_ ?_
  · simp only [total, count, start, System.start, weight_idle]
    omega
  · intro s a s' _ hs _ hnext
    exact (hp.next x hnext).trans hs

end Potential

/-- Ways left to call `ProcessConnect` on a session. -/
def Session.unconnected (s : Session T S) : ℕ :=
  s.connecting + s.accepting.toNat + if s.bound then 0 else 1

omit [DecidableEq T] in
/-- The listener only binds a session to an `AcceptEx` or gives it up. -/
theorem EnvStep.session {σ σ' : System T S} (h : EnvStep σ σ') (x : S) :
    ∃ bound accepting, σ'.session x =
        { σ.session x with bound := bound, accepting := accepting } ∧
      (σ'.session x).unconnected ≤ (σ.session x).unconnected ∧
      ((σ.session x).destroyed = true → accepting = true → (σ.session x).accepting = true) := by
  cases h with
  | acceptEx this hb hd =>
    by_cases hx : x = this
    · subst hx
      refine ⟨true, true, by simp, ?_, by simp [hd]⟩
      cases ha : (σ.session x).accepting <;> simp [Session.unconnected, hb, ha]
    · exact ⟨(σ.session x).bound, _, by simp [hx], by simp [hx], fun _ => id⟩
  | acceptFailed this ha =>
    by_cases hx : x = this
    · subst hx
      exact ⟨(σ.session x).bound, false, by simp, by simp [Session.unconnected], by simp⟩
    · exact ⟨(σ.session x).bound, _, by simp [hx], by simp [hx], fun _ => id⟩

/-- Frames on the way to the `mIsConnected.store(true)` of a session. -/
def ConnectFrame.opening : ConnectFrame → ℕ
  | .prepare | .connectEx | .dispatch | .processConnect => 1
  | _ => 0

/-- Frames on the way to the `RegisterRecv` of `ProcessConnect`. -/
def ConnectFrame.beforeRecv : ConnectFrame → ℕ
  | .connect | .bind | .rejected | .returned => 0
  | _ => 1

/-- Frames on the way to the assignment of a session's buffer. -/
def ConnectFrame.beforeAssign : Pool → ConnectFrame → ℕ
  | _, .prepare | _, .connectEx | _, .dispatch | _, .processConnect | _, .addSession => 1
  | _, .acquire .recv | _, .tryDequeue .recv | _, .useCount .recv _ | _, .assign .recv _ => 1
  | .send, .acquire .send | .send, .tryDequeue .send | .send, .useCount .send _
  | .send, .assign .send _ => 1
  | _, _ => 0

def DisconnectFrame.effective : DisconnectFrame → ℕ
  | .disconnect _ => 0
  | _ => 1

def SendFrame.token : SendFrame T → ℕ
  | .send _ | .enqueue _ | .count | .exchange => 0
  | _ => 1

namespace Frame

def connectToken : Frame T → ℕ
  | .connect f => f.opening
  | _ => 0

def recvToken : Frame T → ℕ
  | .recv _ => 1
  | .connect f => f.beforeRecv
  | _ => 0

def disconnectToken : Frame T → ℕ
  | .connect f => f.opening
  | .disconnect f => f.effective
  | _ => 0

def sendToken : Frame T → ℕ
  | .send f => f.token
  | .disconnect (.disconnect cause) => if cause.ofSend then 1 else 0
  | _ => 0

def bufferToken (pool : Pool) : Frame T → ℕ
  | .connect f => f.beforeAssign pool
  | _ => 0

end Frame

/-- The right to call `ProcessConnect`. -/
def connectToken : Potential T S := ⟨Session.unconnected, Frame.connectToken⟩

/-- The right to use the receive buffer and its context. -/
def recvToken : Potential T S :=
  ⟨fun s => s.unconnected + s.recv.outstanding.length, Frame.recvToken⟩

/-- The right to disconnect with effect. -/
def disconnectToken : Potential T S :=
  ⟨fun s => s.unconnected + s.mIsConnected.toNat + s.disconnecting, Frame.disconnectToken⟩

/-- The right to use the send buffer and its context, which `mSendRegistered` hands out. -/
def sendToken : Potential T S :=
  ⟨fun s => s.send.outstanding.length + if s.send.mSendRegistered then 0 else 1, Frame.sendToken⟩

/-- The right to give the session its buffer, which it keeps from then on. -/
def bufferToken (pool : Pool) : Potential T S :=
  ⟨fun s => s.unconnected + (s.buffer pool).isSome.toNat, Frame.bufferToken pool⟩

omit [DecidableEq T] in
theorem stackWeight_releaseFrames (w : Frame T → ℕ) (h : ∀ f, w (.destroy f) = 0) (p : Pool)
    (b : Option NetworkBuffer) : stackWeight w (releaseFrames p b) = 0 := by
  cases b <;> simp [releaseFrames, h]

@[simp] theorem opening_afterAssign (p : Pool) (b : Option NetworkBuffer) :
    (afterAssign p b).opening = 0 := by
  cases p <;> cases b <;> rfl

@[simp] theorem beforeRecv_afterAssign (p : Pool) (b : Option NetworkBuffer) :
    (afterAssign p b).beforeRecv = 1 := by
  cases p <;> cases b <;> rfl

theorem connectToken_decreases : (connectToken : Potential T S).Decreases := by
  constructor
  · intro this t σ f c σ' new h
    cases h with
    | send f c s' new h => cases h <;> simp [connectToken, Frame.connectToken, Session.unconnected]
    | recv f c s' new h => cases h <;> simp [connectToken, Frame.connectToken, Session.unconnected]
    | connect f c σ' new h =>
      cases h with
      | refuse f hf => rcases hf with rfl | rfl | rfl <;> simp [connectToken]
      | bind hb =>
        simp [connectToken, Frame.connectToken, Session.unconnected, ConnectFrame.opening, hb]
      | connectEx =>
        simp [connectToken, Frame.connectToken, Session.unconnected, ConnectFrame.opening]
        omega
      | assign p b =>
        simp [connectToken, Frame.connectToken, Session.unconnected,
          stackWeight_releaseFrames Frame.connectToken fun _ => rfl]
      | _ =>
        simp [connectToken, Frame.connectToken, Session.unconnected, ConnectFrame.opening,
          Session.record]
    | disconnect f c σ' new h =>
      cases h <;> simp [connectToken, Frame.connectToken, Session.unconnected, Session.record]
    | destroy f c σ' new h =>
      cases h <;>
        simp [connectToken, Frame.connectToken, Session.unconnected,
          stackWeight_releaseFrames Frame.connectToken fun _ => rfl]
  · intro σ σ' frames c this f h
    cases h with
    | accepted this ha =>
      simp +arith [connectToken, Frame.connectToken, Session.unconnected, ConnectFrame.opening, ha]
    | connected this hc =>
      simp [connectToken, Frame.connectToken, Session.unconnected, ConnectFrame.opening]
      omega
    | _ => simp [connectToken, Frame.connectToken, Session.unconnected, ConnectFrame.opening]
  · intro σ σ' x h
    obtain ⟨_, _, he, hle, _⟩ := h.session x
    simp only [Session.unconnected, he] at hle
    simp only [connectToken, Session.unconnected, he]
    omega

theorem recvToken_decreases : (recvToken : Potential T S).Decreases := by
  constructor
  · intro this t σ f c σ' new h
    cases h with
    | send f c s' new h => cases h <;> simp [recvToken, Frame.recvToken, Session.unconnected]
    | recv f c s' new h =>
      cases h <;> simp [recvToken, Frame.recvToken, Session.unconnected, Nat.add_assoc]
    | connect f c σ' new h =>
      cases h with
      | refuse f hf => rcases hf with rfl | rfl | rfl <;> simp [recvToken]
      | bind hb =>
        simp +arith [recvToken, Frame.recvToken, Session.unconnected, ConnectFrame.beforeRecv, hb]
      | connectEx =>
        simp [recvToken, Frame.recvToken, Session.unconnected, ConnectFrame.beforeRecv]
        omega
      | assign p b =>
        simp [recvToken, Frame.recvToken, Session.unconnected,
          stackWeight_releaseFrames Frame.recvToken fun _ => rfl]
        exact le_refl 1
      | _ =>
        simp [recvToken, Frame.recvToken, Session.unconnected, ConnectFrame.beforeRecv,
          Session.record]
    | disconnect f c σ' new h =>
      cases h <;> simp [recvToken, Frame.recvToken, Session.unconnected, Session.record]
    | destroy f c σ' new h =>
      cases h <;>
        simp [recvToken, Frame.recvToken, Session.unconnected,
          stackWeight_releaseFrames Frame.recvToken fun _ => rfl]
  · intro σ σ' frames c this f h
    cases h with
    | accepted this ha =>
      simp +arith [recvToken, Frame.recvToken, Session.unconnected, ConnectFrame.beforeRecv, ha]
    | connected this hc =>
      simp [recvToken, Frame.recvToken, Session.unconnected, ConnectFrame.beforeRecv]
      omega
    | received this n region outstanding ho _ =>
      simp [recvToken, Frame.recvToken, Session.unconnected, ho, Nat.add_assoc]
    | _ => simp [recvToken, Frame.recvToken, Session.unconnected, ConnectFrame.beforeRecv]
  · intro σ σ' x h
    obtain ⟨_, _, he, hle, _⟩ := h.session x
    simp only [Session.unconnected, he] at hle
    simp only [recvToken, Session.unconnected, he]
    omega

theorem disconnectToken_decreases : (disconnectToken : Potential T S).Decreases := by
  constructor
  · intro this t σ f c σ' new h
    cases h with
    | send f c s' new h =>
      cases h <;> simp [disconnectToken, Frame.disconnectToken, Session.unconnected,
        DisconnectFrame.effective]
    | recv f c s' new h =>
      cases h <;> simp [disconnectToken, Frame.disconnectToken, Session.unconnected,
        DisconnectFrame.effective]
    | connect f c σ' new h =>
      cases h with
      | refuse f hf => rcases hf with rfl | rfl | rfl <;> simp [disconnectToken]
      | bind hb =>
        simp +arith [disconnectToken, Frame.disconnectToken, Session.unconnected, ConnectFrame.opening, hb]
      | connectEx =>
        simp [disconnectToken, Frame.disconnectToken, Session.unconnected, ConnectFrame.opening]
        omega
      | processConnect =>
        cases hc : (σ.session this).mIsConnected <;>
          simp +arith [disconnectToken, Frame.disconnectToken, Session.unconnected, ConnectFrame.opening,
            hc]
      | assign p b =>
        simp [disconnectToken, Frame.disconnectToken, Session.unconnected,
          stackWeight_releaseFrames Frame.disconnectToken fun _ => rfl]
      | _ =>
        simp [disconnectToken, Frame.disconnectToken, Session.unconnected, ConnectFrame.opening,
          DisconnectFrame.effective, Session.record]
    | disconnect f c σ' new h =>
      cases h with
      | disconnect cause hc =>
        simp +arith [disconnectToken, Frame.disconnectToken, Session.unconnected,
          DisconnectFrame.effective, hc]
      | disconnectEx =>
        simp [disconnectToken, Frame.disconnectToken, Session.unconnected,
          DisconnectFrame.effective, Nat.add_assoc]
      | again cause hc =>
        simp [disconnectToken, Frame.disconnectToken, Session.unconnected, hc]
      | _ =>
        simp [disconnectToken, Frame.disconnectToken, Session.unconnected,
          DisconnectFrame.effective, Session.record]
    | destroy f c σ' new h =>
      cases h <;>
        simp [disconnectToken, Frame.disconnectToken, Session.unconnected,
          stackWeight_releaseFrames Frame.disconnectToken fun _ => rfl]
  · intro σ σ' frames c this f h
    cases h with
    | accepted this ha =>
      simp +arith [disconnectToken, Frame.disconnectToken, Session.unconnected, ConnectFrame.opening, ha]
    | connected this hc =>
      simp [disconnectToken, Frame.disconnectToken, Session.unconnected, ConnectFrame.opening]
      omega
    | disconnected this hd =>
      simp [disconnectToken, Frame.disconnectToken, Session.unconnected, DisconnectFrame.effective]
      omega
    | _ =>
      simp [disconnectToken, Frame.disconnectToken, Session.unconnected, ConnectFrame.opening,
        DisconnectFrame.effective]
  · intro σ σ' x h
    obtain ⟨_, _, he, hle, _⟩ := h.session x
    simp only [Session.unconnected, he] at hle
    simp only [disconnectToken, Session.unconnected, he]
    omega

/-- The one send token is handed on, or lost by a session that is no longer connected. -/
theorem sendToken_step {this : S} {t : T} {σ σ' : System T S} {f : Frame T} {c : Choice T S}
    {new : List (Frame T)} (h : FrameStep this t σ f c σ' new) :
    sendToken.session (σ'.session this) + stackWeight Frame.sendToken new =
        sendToken.session (σ.session this) + f.sendToken ∨
      ((σ'.session this).mIsConnected = false ∨
        1 < sendToken.session (σ.session this) + f.sendToken) ∧
        sendToken.session (σ'.session this) + stackWeight Frame.sendToken new ≤
          sendToken.session (σ.session this) + f.sendToken := by
  cases h with
  | send f c s' new h =>
    cases h with
    | win hr => simp [sendToken, Frame.sendToken, SendFrame.token, hr]
    | giveUp caller hc => simp [sendToken, Frame.sendToken, SendFrame.token, hc]
    | unregister =>
      cases hr : (σ.session this).send.mSendRegistered <;>
        simp [sendToken, Frame.sendToken, SendFrame.token, hr]
    | clear =>
      cases hr : (σ.session this).send.mSendRegistered <;>
        simp [sendToken, Frame.sendToken, SendFrame.token, hr]
    | post start swapList b hb =>
      apply Or.inl
      simp [sendToken, Frame.sendToken, SendFrame.token]
      omega
    | _ => simp [sendToken, Frame.sendToken, SendFrame.token, Cause.ofSend]
  | recv f c s' new h =>
    cases h with
    | recvFail n cause hc => simp [sendToken, Frame.sendToken, hc]
    | _ => simp [sendToken, Frame.sendToken, Cause.ofSend]
  | connect f c σ' new h =>
    cases h with
    | refuse f hf => rcases hf with rfl | rfl | rfl <;> simp [sendToken, Frame.sendToken]
    | assign p b =>
      simp [sendToken, Frame.sendToken, stackWeight_releaseFrames Frame.sendToken fun _ => rfl]
    | _ => simp [sendToken, Frame.sendToken, Session.record, Cause.ofSend]
  | disconnect f c σ' new h =>
    cases h <;> simp [sendToken, Frame.sendToken, Session.record]
  | destroy f c σ' new h =>
    cases h <;>
      simp [sendToken, Frame.sendToken, stackWeight_releaseFrames Frame.sendToken fun _ => rfl]

omit [DecidableEq T] in
theorem EnterStep.sendToken {this : S} {σ σ' : System T S}
    {frames : T → List (SessionFrame T S)} {c : Choice T S} {f : Frame T} (h : EnterStep σ frames c σ' this f) :
    Network.sendToken.session (σ'.session this) + f.sendToken =
      Network.sendToken.session (σ.session this) := by
  cases h with
  | sent this n post outstanding ho _ =>
    simp [Network.sendToken, Frame.sendToken, SendFrame.token, ho]
    omega
  | _ => simp [Network.sendToken, Frame.sendToken, SendFrame.token, Cause.ofSend]

theorem sendToken_decreases : (sendToken : Potential T S).Decreases := by
  constructor
  · intro this t σ f c σ' new h
    rcases sendToken_step h with heq | ⟨_, hle⟩
    · exact heq.le
    · exact hle
  · intro σ σ' frames c this f h
    exact h.sendToken.le
  · intro σ σ' x h
    obtain ⟨_, _, he, _⟩ := h.session x
    simp only [sendToken, he, le_refl]

theorem bufferToken_decreases (pool : Pool) : (bufferToken pool : Potential T S).Decreases := by
  constructor
  · intro this t σ f c σ' new h
    cases h with
    | send f c s' new h =>
      cases h <;> cases pool <;>
        simp [bufferToken, Frame.bufferToken, Session.unconnected, Session.buffer, *]
    | recv f c s' new h =>
      cases h <;> cases pool <;>
        simp [bufferToken, Frame.bufferToken, Session.unconnected, Session.buffer, *]
    | connect f c σ' new h =>
      cases h with
      | refuse f hf => rcases hf with rfl | rfl | rfl <;> simp [bufferToken]
      | bind hb =>
        cases pool <;>
          simp +arith [bufferToken, Frame.bufferToken, Session.unconnected, ConnectFrame.beforeAssign,
            Session.buffer, hb]
      | connectEx =>
        cases pool <;>
          simp [bufferToken, Frame.bufferToken, Session.unconnected, ConnectFrame.beforeAssign,
            Session.buffer] <;> omega
      | noFree p | acquire p =>
        cases pool <;> cases p <;>
          simp [bufferToken, Frame.bufferToken, ConnectFrame.beforeAssign]
      | tryDequeue p _ b _ _ | useCount p b =>
        cases pool <;> cases p <;>
          simp [bufferToken, Frame.bufferToken, ConnectFrame.beforeAssign]
      | assign p b =>
        cases pool <;> cases p <;> cases b <;>
          simp [bufferToken, Frame.bufferToken, Session.unconnected, ConnectFrame.beforeAssign,
            Session.buffer, afterAssign,
            stackWeight_releaseFrames (Frame.bufferToken _) fun _ => rfl] <;> omega
      | _ =>
        cases pool <;>
          simp [bufferToken, Frame.bufferToken, Session.unconnected, ConnectFrame.beforeAssign,
            Session.buffer, Session.record]
    | disconnect f c σ' new h =>
      cases h <;> cases pool <;>
        simp [bufferToken, Frame.bufferToken, Session.unconnected, Session.buffer, Session.record]
    | destroy f c σ' new h =>
      cases h <;> cases pool <;>
        simp [bufferToken, Frame.bufferToken, Session.unconnected, Session.buffer,
          stackWeight_releaseFrames (Frame.bufferToken _) fun _ => rfl]
  · intro σ σ' frames c this f h
    cases h with
    | accepted this ha =>
      cases pool <;>
        simp +arith [bufferToken, Frame.bufferToken, Session.unconnected, ConnectFrame.beforeAssign,
          Session.buffer, ha]
    | connected this hc =>
      cases pool <;>
        simp [bufferToken, Frame.bufferToken, Session.unconnected, ConnectFrame.beforeAssign,
          Session.buffer] <;> omega
    | _ =>
      cases pool <;>
        simp [bufferToken, Frame.bufferToken, Session.unconnected, ConnectFrame.beforeAssign,
          Session.buffer]
  · intro σ σ' x h
    obtain ⟨_, _, he, hle, _⟩ := h.session x
    simp only [Session.unconnected, he] at hle
    cases pool <;> simp only [bufferToken, Session.unconnected, Session.buffer, he] <;> omega

section Bounds

variable [Fintype T] {m : Machine T (System T S) (SessionFrame T S) (Choice T S)} [Specified m]
  {recvPool sendPool : RegisteredBufferPool T}
  {ok : SystemConf T S → Action T (Choice T S) → Prop} {s : SystemConf T S}

theorem connectToken_le (h : m.Reach ok (start recvPool sendPool) s) (x : S) :
    connectToken.total x s ≤ 1 :=
  connectToken_decreases.le x 1 (by simp [connectToken, Session.construct, Session.unconnected]) h

theorem recvToken_le (h : m.Reach ok (start recvPool sendPool) s) (x : S) :
    recvToken.total x s ≤ 1 :=
  recvToken_decreases.le x 1 (by simp [recvToken, Session.construct, Session.unconnected]) h

theorem disconnectToken_le (h : m.Reach ok (start recvPool sendPool) s) (x : S) :
    disconnectToken.total x s ≤ 1 :=
  disconnectToken_decreases.le x 1
    (by simp [disconnectToken, Session.construct, Session.unconnected]) h

theorem sendToken_le (h : m.Reach ok (start recvPool sendPool) s) (x : S) :
    sendToken.total x s ≤ 1 :=
  sendToken_decreases.le x 1 (by simp [sendToken, Session.construct]) h

theorem bufferToken_le (h : m.Reach ok (start recvPool sendPool) s) (x : S) (pool : Pool) :
    (bufferToken pool).total x s ≤ 1 := by
  refine (bufferToken_decreases pool).le x 1 ?_ h
  cases pool <;> simp [bufferToken, Session.construct, Session.unconnected, Session.buffer]

end Bounds

end ServerCore.Network
