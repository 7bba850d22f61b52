import ServerCore.Network.Completions

namespace ServerCore.Network

open Framework

variable {T S : Type} [DecidableEq T] [DecidableEq S]

/-- A context of a session, with the operations that it is set for. -/
inductive Context where
  | connect
  | disconnect
  | recv
  | send
  deriving DecidableEq

def Session.context (s : Session T S) : Context → Option S
  | .connect => s.mConnectContext
  | .disconnect => s.mDisconnectContext
  | .recv => s.recv.mRioRecvContext.mDispatcher
  | .send => s.send.mRioSendContext.mDispatcher

/-- The contexts of session `x` hold no session but `x`. -/
def ownContexts (x : S) : Assertion T S where
  session s := ∀ k y, s.context k = some y → y = x
  frame _ _ := True

def Session.pending (s : Session T S) : Context → ℕ
  | .connect => s.connecting
  | .disconnect => s.disconnecting
  | .recv => s.recv.outstanding.length
  | .send => s.send.outstanding.length

/-- The frame has set a context and not posted the operation yet, or has to clear it. -/
def Frame.answers : Context → Frame T → ℕ
  | .connect, .connect .connectEx | .connect, .connect .rejected => 1
  | .disconnect, .disconnect .disconnectEx | .disconnect, .disconnect .rejected
  | .disconnect, .disconnect .dispatch | .disconnect, .disconnect .processDisconnect => 1
  | .recv, .recv .post | .recv, .recv .rejected | .recv, .recv (.dispatch _)
  | .recv, .recv (.processRecv _) => 1
  | .send, .send (.dequeue _) | .send, .send (.copy ..) | .send, .send (.post ..)
  | .send, .send .rejected | .send, .send (.dispatch _) | .send, .send (.processSend _) => 1
  | _, _ => 0

/-- The operations that a context is set for. -/
def operations (k : Context) : Potential T S := ⟨fun s => s.pending k, Frame.answers k⟩

/-- No `ConnectEx` completes, and `RegisterSend` finds room for each packet it copies. -/
def clearsContexts (s : SystemConf T S) : Action T (Choice T S) → Bool
  | .enter _ (.connected _) => false
  | a => copiedFits s a

/-- Nothing is outstanding on the session, and no thread is inside one of its methods. -/
structure Idle (x : S) (s : SystemConf T S) : Prop where
  connecting : (s.mem.session x).connecting = 0
  disconnecting : (s.mem.session x).disconnecting = 0
  recv : (s.mem.session x).recv.outstanding = []
  send : (s.mem.session x).send.outstanding = []
  frames : ∀ t f, (x, f) ∉ s.frames t

/-- Nobody outside holds the session any more. -/
structure Dropped (x : S) (s : SystemConf T S) : Prop where
  mSessions : x ∉ s.mem.mSessions
  _sessions : x ∉ s.mem._sessions
  accepting : (s.mem.session x).accepting = false
  destroyed : (s.mem.session x).destroyed = false

/-- The destructor has run and given back the slices that the session had in `s`. -/
structure Destroyed (x : S) (t : T) (s s' : SystemConf T S) : Prop where
  destroyed : (s'.mem.session x).destroyed = true
  buffer : ∀ p, (s'.mem.session x).buffer p = none
  pool : ∀ p, (s'.mem.pool p).mQueue =
    (s.mem.pool p).mQueue ++ ((s.mem.session x).buffer p).toList.map fun b => (t, b.reset)

/-- An idle session does not hold itself, and the last outside reference destroys it. -/
structure SelfFree [Fintype T] (x : S) (s : SystemConf T S) : Prop where
  context : Idle x s → ∀ c, (s.mem.session x).context c = none
  destroy : Idle x s → Dropped x s → ∀ t, s.frames t = [] →
    ∃ s', machine.Reach (fun _ _ => True) s s' ∧ Destroyed x t s s'

/-- A step leaves a context alone, clears it or sets it to its session. -/
theorem FrameStep.context {this : S} {t : T} {σ σ' : System T S} {f : Frame T} {c : Choice T S}
    {new : List (Frame T)} (h : FrameStep this t σ f c σ' new) (k : Context) :
    (σ'.session this).context k = (σ.session this).context k ∨
      (σ'.session this).context k = none ∨ (σ'.session this).context k = some this := by
  cases h with
  | send f c s' new h => cases h <;> cases k <;> simp [Session.context]
  | recv f c s' new h => cases h <;> cases k <;> simp [Session.context]
  | connect f c σ' new h => cases h <;> cases k <;> simp [Session.context, Session.record]
  | disconnect f c σ' new h => cases h <;> cases k <;> simp [Session.context, Session.record]
  | destroy f c σ' new h => cases h <;> cases k <;> simp [Session.context]

omit [DecidableEq T] in
theorem EnterStep.context {this : S} {σ σ' : System T S} {frames : T → List (SessionFrame T S)}
    {c : Choice T S} {f : Frame T} (h : EnterStep σ frames c σ' this f) (k : Context) :
    (σ'.session this).context k = (σ.session this).context k := by
  cases h <;> cases k <;> simp [Session.context]

omit [DecidableEq T] in
theorem EnvStep.context {σ σ' : System T S} (h : EnvStep σ σ') (x : S) (k : Context) :
    (σ'.session x).context k = (σ.session x).context k := by
  obtain ⟨_, _, he, _⟩ := h.session x
  rw [he]
  cases k <;> rfl

section

variable [Fintype T] {m : Machine T (System T S) (SessionFrame T S) (Choice T S)} [Specified m]
  {recvPool sendPool : RegisteredBufferPool T}
  {ok : SystemConf T S → Action T (Choice T S) → Prop} {s : SystemConf T S}

theorem ownContexts_reach (h : m.Reach ok (start recvPool sendPool) s) (x : S) :
    (ownContexts x).Holds x s := by
  refine Assertion.reach h ?init ?step ?beside ?enter ?env
  case init =>
    intro k y hy
    cases k <;> simp [Session.context, Session.construct] at hy
  case step =>
    intro s t c f fs mem new _ _ _ hstep hs _
    refine ⟨?_, fun _ _ => trivial⟩
    intro k y hy
    rcases hstep.context k with he | he | he <;> rw [he] at hy
    · exact hs k y hy
    · simp at hy
    · exact (Option.some.inj hy).symm
  case beside => intros; trivial
  case enter =>
    intro s t c f mem _ _ hstep hs
    refine ⟨fun k y hy => hs k y ?_, trivial, fun _ _ _ _ => trivial⟩
    rw [← hy, hstep.context k]
  case env =>
    intro s mem hstep hs
    refine ⟨fun k y hy => hs k y ?_, fun _ _ _ _ => trivial⟩
    rw [← hy, hstep.context x k]

end

/-- A context that stays set, or is set by a step, has an operation to answer for. -/
theorem FrameStep.operations {this : S} {t : T} {σ σ' : System T S} {f : Frame T} {c : Choice T S}
    {new : List (Frame T)} (h : FrameStep this t σ f c σ' new) (k : Context)
    (hfit : ∀ start copied p packet left b,
      f = .send (.copy start copied ((p, some packet) :: left)) →
      (σ.session this).send.mSendBuffer = some b → packet.writeSize ≤ b.freeSize)
    (hown : ∀ k y, (σ.session this).context k = some y → y = this) :
    (σ'.session this).context k = none ∨
      ((σ'.session this).context k).isSome.toNat + (σ.session this).pending k + f.answers k ≤
        ((σ.session this).context k).isSome.toNat + (σ'.session this).pending k +
          stackWeight (Frame.answers k) new := by
  cases h with
  | send f c s' new h =>
    cases h with
    | copyOver start copied p packet left b hb hlt =>
      exact absurd (hfit _ _ _ _ _ _ rfl hb) (not_le.mpr hlt)
    | _ => cases k <;> simp +arith [Session.context, Session.pending, Frame.answers]
  | recv f c s' new h =>
    cases h <;> cases k <;> simp +arith [Session.context, Session.pending, Frame.answers]
  | connect f c σ' new h =>
    cases h with
    | refuse f hf =>
      rcases hf with rfl | rfl | rfl <;> cases k <;>
        simp [Session.context, Session.pending, Frame.answers]
    | _ =>
      cases k <;>
        simp +arith [Session.context, Session.pending, Frame.answers, Session.record]
  | disconnect f c σ' new h =>
    cases h with
    | noDispatcher hne =>
      have hnone : (σ.session this).mDisconnectContext = none := by
        cases hc : (σ.session this).mDisconnectContext with
        | none => rfl
        | some y =>
          have hy : y = this := hown .disconnect y hc
          exact absurd (hy ▸ hc) hne
      cases k <;> simp [Session.context, Session.pending, Frame.answers, hnone]
    | _ =>
      cases k <;>
        simp +arith [Session.context, Session.pending, Frame.answers, Session.record]
  | destroy f c σ' new h =>
    cases h <;> cases k <;> simp [Session.context, Session.pending, Frame.answers]

omit [DecidableEq T] in
theorem EnterStep.operations {this : S} {σ σ' : System T S} {frames : T → List (SessionFrame T S)}
    {c : Choice T S} {f : Frame T} (h : EnterStep σ frames c σ' this f) (k : Context)
    (hc : c ≠ .connected this) :
    (σ.session this).pending k ≤ (σ'.session this).pending k + f.answers k := by
  cases h with
  | connected => exact absurd rfl hc
  | disconnected this hpos =>
    cases k <;> simp [Session.pending, Frame.answers]
    omega
  | received this n region rest ho _ => cases k <;> simp [Session.pending, Frame.answers, ho]
  | sent this n post rest ho _ => cases k <;> simp [Session.pending, Frame.answers, ho]
  | _ => cases k <;> simp [Session.pending, Frame.answers]

section

variable [Fintype T] {m : Machine T (System T S) (SessionFrame T S) (Choice T S)} [Specified m]
  {recvPool sendPool : RegisteredBufferPool T}
  {ok : SystemConf T S → Action T (Choice T S) → Prop} {s : SystemConf T S}

/-- A context that is set has an operation to answer for. -/
theorem operations_reach (hok : ∀ s a, ok s a → clearsContexts s a = true)
    (h : m.Reach ok (start recvPool sendPool) s) (x : S) (k : Context) :
    ((s.mem.session x).context k).isSome.toNat ≤ (operations k).total x s := by
  refine h.invariant
    (fun s => ((s.mem.session x).context k).isSome.toNat ≤ (operations k).total x s) ?_ ?_
  · cases k <;> exact Nat.zero_le _
  · intro s a s' hr hs hallowed hnext
    have hclears := hok _ _ hallowed
    have hown := (ownContexts_reach hr x).1
    simp only [Potential.total, operations] at hs
    rcases next_view x hnext with hmove | hother
    · cases hmove with
      | step t c f fs new mem hf hstep =>
        have hw := count_step x hf mem new (Frame.answers k)
        simp only [if_true] at hw
        have hfit : ∀ start copied p packet left b,
            f = .send (.copy start copied ((p, some packet) :: left)) →
            (s.mem.session x).send.mSendBuffer = some b → packet.writeSize ≤ b.freeSize := by
          rintro start copied p packet left b rfl hb
          simpa [clearsContexts, copiedFits, hf, hb] using hclears
        simp only [Potential.total, operations]
        rcases hstep.operations k hfit hown with hnone | hle
        · simp [hnone]
        · omega
      | enter t c f mem hstep =>
        have hw := count_enter x x s t f mem (Frame.answers k)
        have hc : c ≠ .connected x := by
          rintro rfl
          simp [clearsContexts] at hclears
        have hle := hstep.operations k hc
        simp only [if_true] at hw
        simp only [Potential.total, operations]
        rw [hstep.context k]
        omega
      | env c mem hstep =>
        obtain ⟨_, _, he, _⟩ := hstep.session x
        have hpending : (mem.session x).pending k = (s.mem.session x).pending k := by
          rw [he]
          cases k <;> rfl
        simp only [Potential.total, operations]
        rw [hstep.context x k, hpending]
        exact hs
    · simp only [Potential.total, operations]
      rw [hother.session, hother.count]
      exact hs

omit [DecidableEq T] in
theorem Idle.operations {x : S} (h : Idle x s) (k : Context) : (operations k).total x s = 0 := by
  have hcount : count x (Frame.answers k) s = 0 :=
    count_eq_zero.mpr fun u f hf => absurd hf (h.frames u f)
  cases k <;>
    simp [Potential.total, Network.operations, Session.pending, h.connecting, h.disconnecting,
      h.recv, h.send, hcount]

/-- Thread `t` runs the `Release` of a buffer that a shared pointer gave up. -/
theorem release_run {t : T} {x : S} (p : Pool) (b : Option NetworkBuffer)
    (fs : List (SessionFrame T S)) (σ : System T S) (frames : T → List (SessionFrame T S)) :
    ∃ σ', machine.Reach (fun _ _ => True)
        ⟨σ, Function.update frames t (((releaseFrames p b).map fun g => (x, g)) ++ fs)⟩
        ⟨σ', Function.update frames t fs⟩ ∧
      σ'.session = σ.session ∧
      ∀ q, (σ'.pool q).mQueue =
        (σ.pool q).mQueue ++ if q = p then b.toList.map fun c => (t, c.reset) else [] := by
  cases b with
  | none => exact ⟨σ, .start, rfl, by simp⟩
  | some b =>
    refine ⟨_, Machine.reach_of_run machine _ [.step t .go, .step t .go, .step t .go] (by
      simp [Machine.run, Machine.next, machine, step, destroyStep, releaseFrames]
      rfl), by simp, ?_⟩
    intro q
    by_cases hq : q = p
    · subst hq
      simp [ConcurrentQueue.enqueue]
    · simp [hq]

/-- The destructor of a session that nobody holds, run by an idle thread. -/
theorem destroy_run {x : S} (hheld : (s.mem.session x).held = false) (hidle : Idle x s)
    (hdropped : Dropped x s) {t : T} (ht : s.frames t = []) :
    ∃ s', machine.Reach (fun _ _ => True) s s' ∧ Destroyed x t s s' := by
  let σ₁ := s.mem.set x { s.mem.session x with destroyed := true }
  have henter : machine.next s (.enter t (.destroy x)) =
      some ⟨σ₁, Function.update s.frames t [(x, .destroy .recvBuffer)]⟩ := by
    have hholds : ∀ u, ∀ f ∈ s.frames u, f.1 = x → f.2.holds = false := by
      rintro u ⟨y, f⟩ hf rfl
      exact absurd hf (hidle.frames u f)
    simp only [Machine.next, machine, enter]
    rw [if_pos ⟨by rw [ht]; rfl, hdropped.destroyed, hheld, hdropped.mSessions,
      hdropped._sessions, hholds⟩, ht]
    rfl
  let σ₂ := σ₁.set x ((σ₁.session x).setBuffer .recv none)
  have hfirst : machine.Reach (fun _ _ => True) s
      ⟨σ₂, Function.update s.frames t (((releaseFrames .recv ((s.mem.session x).buffer .recv)).map
        fun g => (x, g)) ++ [(x, .destroy .sendBuffer)])⟩ :=
    (Machine.Reach.next .start trivial henter).trans
      (Machine.reach_of_run machine _ [.step t .go]
        (by simp [Machine.run, Machine.next, machine, step, destroyStep, σ₁, σ₂]; rfl))
  obtain ⟨σ₃, hrecv, hsession₃, hpool₃⟩ := release_run (x := x) (t := t) .recv
    ((s.mem.session x).buffer .recv) [(x, .destroy .sendBuffer)] σ₂ s.frames
  let σ₄ := σ₃.set x ((σ₃.session x).setBuffer .send none)
  have hsecond : machine.Reach (fun _ _ => True)
      ⟨σ₃, Function.update s.frames t [(x, .destroy .sendBuffer)]⟩
      ⟨σ₄, Function.update s.frames t (((releaseFrames .send ((s.mem.session x).buffer .send)).map
        fun g => (x, g)) ++ [(x, .destroy .packetCount)])⟩ :=
    Machine.reach_of_run machine _ [.step t .go] (by
      simp [Machine.run, Machine.next, machine, step, destroyStep, σ₄, hsession₃, σ₂, σ₁,
        Session.buffer])
  obtain ⟨σ₅, hsend, hsession₅, hpool₅⟩ := release_run (x := x) (t := t) .send
    ((s.mem.session x).buffer .send) [(x, .destroy .packetCount)] σ₄ s.frames
  let last := σ₅.session x
  have hthird : machine.Reach (fun _ _ => True)
      ⟨σ₅, Function.update s.frames t [(x, .destroy .packetCount)]⟩
      ⟨σ₅.set x { last with send := { last.send with mPacketCount := 0 } },
        Function.update s.frames t []⟩ :=
    Machine.reach_of_run machine _ [.step t .go] (by
      simp [Machine.run, Machine.next, machine, step, destroyStep, last])
  refine ⟨_, (((hfirst.trans hrecv).trans hsecond).trans hsend).trans hthird, ?_, ?_, ?_⟩
  · simp [last, hsession₅, σ₄, hsession₃, σ₂, σ₁]
  · intro p
    cases p <;> simp [last, hsession₅, σ₄, hsession₃, σ₂, σ₁, Session.buffer]
  · intro p
    simp only [System.set_pool, hpool₅, hpool₃, σ₄, σ₂, σ₁]
    cases p <;> simp

/-- In a run in which no `ConnectEx` completes and no batch exceeds the send buffer, an idle session
does not hold itself. -/
theorem self_free
    (h : machine.Reach (fun s a => clearsContexts s a = true) (start recvPool sendPool) s) (x : S) :
    SelfFree x s := by
  have hcontext (hidle : Idle x s) (k : Context) : (s.mem.session x).context k = none := by
    have hle := operations_reach (fun _ _ hok => hok) h x k
    rw [hidle.operations k] at hle
    cases hc : (s.mem.session x).context k with
    | none => rfl
    | some y => simp [hc] at hle
  refine ⟨hcontext, fun hidle hdropped t ht => destroy_run ?_ hidle hdropped ht⟩
  have hconnect := hcontext hidle .connect
  have hdisconnect := hcontext hidle .disconnect
  have hrecv := hcontext hidle .recv
  have hsend := hcontext hidle .send
  simp only [Session.context] at hconnect hdisconnect hrecv hsend
  simp [Session.held, hconnect, hdisconnect, hrecv, hsend, hdropped.accepting]

end

/-- `ProcessConnect` by thread `t`, at the end of which `RIOReceive` is rejected. -/
def recvRejectedRun {T S : Type} (p t : T) (this : S) : List (Action T (Choice T S)) :=
  ((connectRun p t this).drop 2).take 16 ++ [.step t (.result false), .step t .go, .step t .go]

/-- The session is connected by `ConnectEx`, and nothing clears `mConnectContext`. -/
def connectExRun {T S : Type} (p t : T) (this : S) : List (Action T (Choice T S)) :=
  [.enter t (.callConnect this), .step t .go, .step t (.result true), .step t .go,
    .step t (.result true), .enter t (.connected this), .step t .go] ++ recvRejectedRun p t this

theorem connect_holds_itself : ¬∀ s : SystemConf (Fin 2) Unit,
    machine.Reach (fun _ _ => True) smallStart s → SelfFree () s := by
  intro claim
  have hr := Machine.reach_final machine smallStart (connectExRun 0 1 ()) (by decide)
  have hframes : ∀ u, (Machine.final machine smallStart (connectExRun 0 1 ())
      (by decide)).frames u = [] := by decide
  have hidle : Idle () (Machine.final machine smallStart (connectExRun 0 1 ()) (by decide)) := by
    refine ⟨by decide, by decide, by decide, by decide, ?_⟩
    intro t f hf
    rw [hframes t] at hf
    exact absurd hf List.not_mem_nil
  exact absurd ((claim _ hr).context hidle .connect) (by decide)

theorem self_free_afterReject : ∃ s : SystemConf (Fin 2) Unit,
    (∀ u, s.frames u = []) ∧ (s.mem.session ()).mIsConnected = true ∧ SelfFree () s := by
  have hr := Machine.reach_finalChecked machine clearsContexts smallStart
    ((connectRun 0 1 ()).take 2 ++ recvRejectedRun 0 1 ()) (by decide)
  exact ⟨_, by decide, by decide, self_free hr ()⟩

end ServerCore.Network
