import ServerCore.Network.SendStream

namespace ServerCore.Network

open Framework ConcurrentQueue

variable {T S : Type} [DecidableEq T] [DecidableEq S]

/-- A `Send` that was let in and has not yet made its exchange. -/
def Frame.sending : Frame T → ℕ
  | .send (.enqueue _) | .send .count | .send .exchange => 1
  | _ => 0

/-- A `Send` that has not yet made its exchange. -/
def Frame.beforeExchange : Frame T → ℕ
  | .send (.send _) | .send (.enqueue _) | .send .count | .send .exchange => 1
  | _ => 0

/-- A `RegisterSend` whose `RIOSend` was rejected. -/
def Frame.rejecting : Frame T → ℕ
  | .send .rejected | .send .unregister => 1
  | _ => 0

theorem FrameStep.registered {this : S} {t : T} {σ σ' : System T S} {f : Frame T} {c : Choice T S}
    {new : List (Frame T)} (h : FrameStep this t σ f c σ' new) (hf : f ≠ .send .exchange) :
    (σ'.session this).send.mSendRegistered = true →
      (σ.session this).send.mSendRegistered = true := by
  cases h with
  | send f c s' new h => cases h <;> simp at hf ⊢
  | recv f c s' new h => cases h <;> simp
  | connect f c σ' new h => cases h <;> simp [Session.record]
  | disconnect f c σ' new h => cases h <;> simp [Session.record]
  | destroy f c σ' new h => cases h <;> simp

theorem FrameStep.sending {this : S} {t : T} {σ σ' : System T S} {f : Frame T} {c : Choice T S}
    {new : List (Frame T)} (h : FrameStep this t σ f c σ' new)
    (hc : (σ.session this).mIsConnected = false) :
    stackWeight Frame.sending new ≤ f.sending := by
  cases h with
  | send f c s' new h =>
    cases h with
    | accept buffer hc' => simp [hc] at hc'
    | _ => simp [Frame.sending]
  | recv f c s' new h => cases h <;> simp [Frame.sending]
  | connect f c σ' new h =>
    cases h with
    | refuse f hf => simp
    | assign p b => simp [Frame.sending, stackWeight_releaseFrames Frame.sending fun _ => rfl]
    | _ => simp [Frame.sending]
  | disconnect f c σ' new h => cases h <;> simp [Frame.sending]
  | destroy f c σ' new h =>
    cases h <;> simp [Frame.sending, stackWeight_releaseFrames Frame.sending fun _ => rfl]

/-- Without a `Send` under way and without the send token nothing is counted. -/
theorem FrameStep.packetCount {this : S} {t : T} {σ σ' : System T S} {f : Frame T} {c : Choice T S}
    {new : List (Frame T)} (h : FrameStep this t σ f c σ' new)
    (hp : (σ.session this).send.mPacketCount = 0) (hf : f.sending = 0) (htoken : f.sendToken = 0) :
    (σ'.session this).send.mPacketCount = 0 := by
  have heffect := h.sendSide
  generalize (σ'.session this).send = s' at heffect ⊢
  cases heffect with
  | send f c s' new h =>
    cases h with
    | count => simp [Frame.sending] at hf
    | fetchSub start copied => simp [Frame.sendToken, SendFrame.token] at htoken
    | _ => exact hp
  | packetCount c => rfl
  | buffer f c b new _ _ _ => exact hp

/-- Only the step after `IsConnected` fills an empty send queue. -/
theorem FrameStep.queue_nil {this : S} {t : T} {σ σ' : System T S} {f : Frame T} {c : Choice T S}
    {new : List (Frame T)} (h : FrameStep this t σ f c σ' new)
    (hq : (σ.session this).send.mSendQueue = []) (hf : f.sending = 0) :
    (σ'.session this).send.mSendQueue = [] := by
  have heffect := h.sendSide
  generalize (σ'.session this).send = s' at heffect ⊢
  cases heffect with
  | send f c s' new h =>
    cases h with
    | enqueue buffer => simp [Frame.sending] at hf
    | dequeue caller producers b xs rest _ hbulk _ =>
      have hperm := (takeBulk_spec hbulk).1
      rw [hq] at hperm
      exact (List.append_eq_nil_iff.mp hperm.nil_eq.symm).2
    | _ => exact hq
  | packetCount c => exact hq
  | buffer f c b new _ _ _ => exact hq

omit [DecidableEq T] in
/-- Entering a function changes neither flag, nor the queue and its count. -/
theorem EnterStep.flags {this : S} {σ σ' : System T S} {frames : T → List (SessionFrame T S)}
    {c : Choice T S} {f : Frame T} (h : EnterStep σ frames c σ' this f) :
    (σ'.session this).mIsConnected = (σ.session this).mIsConnected ∧
      (σ'.session this).send.mSendRegistered = (σ.session this).send.mSendRegistered ∧
      (σ'.session this).send.mSendQueue = (σ.session this).send.mSendQueue ∧
      (σ'.session this).send.mPacketCount = (σ.session this).send.mPacketCount ∧
      f.sending = 0 ∧ f.rejecting = 0 := by
  cases h <;> simp [Frame.sending, Frame.rejecting]

omit [DecidableEq T] in
theorem EnvStep.flags {σ σ' : System T S} (h : EnvStep σ σ') (x : S) :
    (σ'.session x).mIsConnected = (σ.session x).mIsConnected ∧
      (σ'.session x).send = (σ.session x).send := by
  obtain ⟨_, _, he, _⟩ := h.session x
  rw [he]
  exact ⟨rfl, rfl⟩

variable [Fintype T]

/-- Nobody has got past the first test of `Send`. -/
structure Untouched (x : S) (s : SystemConf T S) : Prop where
  connected : (s.mem.session x).mIsConnected = false
  registered : (s.mem.session x).send.mSendRegistered = false
  queue : (s.mem.session x).send.mSendQueue = []
  packetCount : (s.mem.session x).send.mPacketCount = 0
  sending : count x Frame.sending s = 0

section

variable {recvPool sendPool : RegisteredBufferPool T}
  {ok : SystemConf T S → Action T (Choice T S) → Prop} {s : SystemConf T S}

/-- As long as `ProcessConnect` can still be called, nobody sends. -/
theorem untouched_of_unconnected (h : machine.Reach ok (start recvPool sendPool) s) (x : S) :
    0 < connectToken.total x s → Untouched x s := by
  refine h.invariant (fun s => 0 < connectToken.total x s → Untouched x s) ?_ ?_
  · intro _
    exact ⟨rfl, rfl, rfl, rfl, by simp [count, start]⟩
  · intro s a s' hr ih _ hnext hpos
    have hone := connectToken_le hr x
    have hdec := connectToken_decreases.next x hnext
    have hu := ih (by omega)
    rcases next_view x hnext with hmove | hother
    · cases hmove with
      | step t c f fs new mem hf hstep =>
        have hshare := le_count_top hf Frame.sending
        have hsend := count_step x hf mem new Frame.sending
        have hzero := hu.sending
        have hle := hstep.sending hu.connected
        simp only [if_true] at hsend
        have hopen : f ≠ .connect .processConnect := by
          -- the only way to `ProcessConnect` is gone once it is called
          rintro rfl
          have hw := count_step x hf mem new Frame.connectToken
          cases hstep with
          | connect f c σ' new hstep =>
            cases hstep with
            | refuse f hf => simp at hf
            | processConnect =>
              simp only [Potential.total, connectToken, Session.unconnected, Frame.connectToken,
                ConnectFrame.opening, System.set_session_self, if_true, stackWeight_cons,
                stackWeight_nil] at hw hpos hone hdec
              omega
        have htoken : f.sendToken = 0 := by
          by_contra hne
          have hset := (registered_of_token (f := f) (t := t) (x := x) hr (by simp [hf])
            (by omega)).1
          simp [hu.registered] at hset
        refine ⟨?_, ?_, hstep.queue_nil hu.queue (by omega),
          hstep.packetCount hu.packetCount (by omega) htoken, by omega⟩
        · by_contra hc
          have hwas := hstep.connected hopen (by simpa using hc)
          simp [hu.connected] at hwas
        · by_contra hreg
          have hne : f ≠ .send .exchange := by
            rintro rfl
            simp only [Frame.sending] at hshare
            omega
          have hwas := hstep.registered hne (by simpa using hreg)
          simp [hu.registered] at hwas
      | enter t c f mem hstep =>
        obtain ⟨hc, hreg, hq, hp, hw, _⟩ := hstep.flags
        have hcount := count_enter x x s t f mem Frame.sending
        simp only [if_true, hw, Nat.add_zero] at hcount
        exact ⟨hc.trans hu.connected, hreg.trans hu.registered, hq.trans hu.queue,
          hp.trans hu.packetCount, hcount.trans hu.sending⟩
      | env c mem hstep =>
        obtain ⟨hc, hside⟩ := hstep.flags x
        exact ⟨hc.trans hu.connected, by rw [hside]; exact hu.registered,
          by rw [hside]; exact hu.queue, by rw [hside]; exact hu.packetCount, hu.sending⟩
    · refine ⟨?_, ?_, ?_, ?_, (hother.count _).trans hu.sending⟩
      · rw [hother.session]
        exact hu.connected
      · rw [hother.session]
        exact hu.registered
      · rw [hother.session]
        exact hu.queue
      · rw [hother.session]
        exact hu.packetCount

/-- When `ProcessConnect` is called, nobody has sent. -/
theorem untouched_of_processConnect (h : machine.Reach ok (start recvPool sendPool) s) {x : S}
    {t : T} {fs : List (SessionFrame T S)}
    (hf : s.frames t = (x, .connect .processConnect) :: fs) : Untouched x s := by
  have hpos := le_count_top hf Frame.connectToken
  simp only [Frame.connectToken, ConnectFrame.opening] at hpos
  apply untouched_of_unconnected h x
  simp only [Potential.total, connectToken]
  omega

/-- A connected session has its send token, in `mSendRegistered`, in a frame or in a send. -/
theorem sendToken_of_connected (h : machine.Reach ok (start recvPool sendPool) s) (x : S) :
    (s.mem.session x).mIsConnected = true → sendToken.total x s = 1 := by
  refine h.invariant (fun s => (s.mem.session x).mIsConnected = true → sendToken.total x s = 1)
    ?_ ?_
  · intro hc
    simp [start, System.start, Session.construct] at hc
  · intro s a s' hr ih ha hnext hconn
    have hle := sendToken_le (hr.next ha hnext) x
    rcases next_view x hnext with hmove | hother
    · cases hmove with
      | step t c f fs new mem hf hstep =>
        by_cases hopen : f = .connect .processConnect
        · subst hopen
          have hu := untouched_of_processConnect hr hf
          have hreg : (mem.session x).send.mSendRegistered = false := by
            by_contra hne
            have hwas := hstep.registered (by simp) (by simpa using hne)
            simp [hu.registered] at hwas
          simp only [Potential.total, sendToken, hreg, Bool.false_eq_true, if_false] at hle ⊢
          omega
        · have hone := ih (hstep.connected hopen hconn)
          have hw := count_step x hf mem new Frame.sendToken
          have hshare := le_count_top hf Frame.sendToken
          simp only [if_true] at hw
          simp only [Potential.total] at hone hle ⊢
          rcases sendToken_step hstep with heq | ⟨hlost | hmany, _⟩
          · simp only [sendToken] at heq hone hle ⊢
            omega
          · rw [hlost] at hconn
            simp at hconn
          · simp only [sendToken] at hmany hone hle
            omega
      | enter t c f mem hstep =>
        have hone := ih (hstep.flags.1 ▸ hconn)
        have hw := count_enter x x s t f mem Frame.sendToken
        have heq := hstep.sendToken
        simp only [if_true] at hw
        simp only [Potential.total] at hone ⊢
        simp only [sendToken] at heq hone ⊢
        omega
      | env c mem hstep =>
        obtain ⟨hc, hside⟩ := hstep.flags x
        have hone := ih (hc ▸ hconn)
        simp only [Potential.total, sendToken, count, hside] at hone ⊢
        exact hone
    · have hone := ih (hother.session ▸ hconn)
      simp only [Potential.total, hother.session, hother.count] at hone ⊢
      exact hone

end

/-- The `RIOSend` of the action, if it is one, is accepted. -/
def rioSendAccepted (s : SystemConf T S) : Action T (Choice T S) → Bool
  | .step t (.result ok) =>
      match s.frames t with
      | (_, .send (.post _ _)) :: _ => ok
      | _ => true
  | _ => true

/-- A `ProcessSend` that clears `mSendRegistered` of a connected session finds its queue empty,
or a `Send` that has not yet made its exchange. -/
def clearsAfterSends (s : SystemConf T S) : Action T (Choice T S) → Bool
  | .step t .go =>
      match s.frames t with
      | (x, .send .clear) :: _ =>
          !(s.mem.session x).mIsConnected || (s.mem.session x).send.mSendQueue.isEmpty ||
            decide (0 < count x Frame.beforeExchange s)
      | _ => true
  | _ => true

/-- A connected session that nobody is sending on has sent everything. -/
def Flushed (x : S) (s : SystemConf T S) : Prop :=
  (s.mem.session x).mIsConnected = true → (∀ u f, (x, f) ∈ s.frames u → f.inSend = false) →
    (s.mem.session x).send.outstanding = [] → (s.mem.session x).send.mSendQueue = []

section

variable {recvPool sendPool : RegisteredBufferPool T} {s : SystemConf T S}

theorem rejecting_zero
    (h : machine.Reach (fun s a => rioSendAccepted s a = true) (start recvPool sendPool) s)
    (x : S) : count x Frame.rejecting s = 0 := by
  apply h.invariant (fun s => count x Frame.rejecting s = 0) (by simp [count, start])
  intro s a s' _ hs hok hnext
  rcases next_view x hnext with hmove | hother
  · cases hmove with
    | step t c f fs new mem hf hstep =>
      have hw := count_step x hf mem new Frame.rejecting
      simp only [if_true] at hw
      have hnew : stackWeight Frame.rejecting new ≤ f.rejecting := by
        cases hstep with
        | send f c s' new h =>
          cases h with
          | reject start swapList b hb => simp [rioSendAccepted, hf] at hok
          | _ => simp [Frame.rejecting]
        | recv f c s' new h => cases h <;> simp [Frame.rejecting]
        | connect f c σ' new h =>
          cases h with
          | assign p b =>
            simp [Frame.rejecting, stackWeight_releaseFrames Frame.rejecting fun _ => rfl]
          | _ => simp [Frame.rejecting]
        | disconnect f c σ' new h => cases h <;> simp [Frame.rejecting]
        | destroy f c σ' new h =>
          cases h <;>
            simp [Frame.rejecting, stackWeight_releaseFrames Frame.rejecting fun _ => rfl]
      omega
    | enter t c f mem hstep =>
      have hw := count_enter x x s t f mem Frame.rejecting
      simp only [if_true, hstep.flags.2.2.2.2.2] at hw
      omega
    | env c mem hstep => exact hs
  · rw [hother.count]
    exact hs

/-- While `mSendRegistered` is clear, a queued packet has a `Send` that will take care of it. -/
def Awake (x : S) (s : SystemConf T S) : Prop :=
  (s.mem.session x).mIsConnected = true → (s.mem.session x).send.mSendRegistered = false →
    (s.mem.session x).send.mSendQueue = [] ∨ 0 < count x Frame.beforeExchange s

theorem awake_step {x : S} {t : T} {c : Choice T S} {f : Frame T} {fs : List (SessionFrame T S)}
    {new : List (Frame T)} {mem : System T S}
    (hr : machine.Reach (fun s a => rioSendAccepted s a = true) (start recvPool sendPool) s)
    (hok : clearsAfterSends s (.step t c) = true) (hf : s.frames t = (x, f) :: fs)
    (hstep : FrameStep x t s.mem f c mem new) (hs : Awake x s) :
    Awake x ⟨mem, Function.update s.frames t ((new.map fun g => (x, g)) ++ fs)⟩ := by
  intro hconn hreg
  by_cases hopen : f = .connect .processConnect
  · subst hopen
    exact .inl (hstep.queue_nil (untouched_of_processConnect hr hf).queue rfl)
  · have hwas := hstep.connected hopen hconn
    have hheld := registered_of_token (f := f) (t := t) (x := x) hr (by simp [hf])
    have hw := count_step x hf mem new Frame.beforeExchange
    have heffect := hstep.sendSide
    have hold := hs hwas
    simp only [if_true] at hw
    simp only at hreg ⊢
    generalize count x Frame.beforeExchange
      (⟨mem, Function.update s.frames t ((new.map fun g => (x, g)) ++ fs)⟩ : SystemConf T S) = n
      at hw ⊢
    generalize (mem.session x).send = s' at heffect hreg ⊢
    cases heffect with
    | send f c s' new h =>
      cases h with
      | refuse buffer hc => simp [hwas] at hc
      | giveUp caller hc => simp [hwas] at hc
      | enqueue buffer =>
        simp only [Frame.beforeExchange, stackWeight_cons, stackWeight_nil] at hw
        have hmine := le_count_top hf Frame.beforeExchange
        simp only [Frame.beforeExchange] at hmine
        exact .inr (by omega)
      | accept buffer _ | count =>
        simp only [Frame.beforeExchange, stackWeight_cons, stackWeight_nil] at hw
        exact (hold hreg).imp_right fun hpos => by omega
      | win hr' => simp at hreg
      | lose hr' => simp [hr'] at hreg
      | unregister =>
        have hnone := le_count_top hf Frame.rejecting
        simp [rejecting_zero hr x, Frame.rejecting] at hnone
      | clear =>
        simp only [clearsAfterSends, hf, hwas, Bool.not_true, Bool.false_or, Bool.or_eq_true,
          List.isEmpty_iff, decide_eq_true_eq] at hok
        simp only [Frame.beforeExchange, stackWeight_nil] at hw
        exact hok.imp_right fun hpos => by omega
      | _ =>
        have hset := (hheld Nat.one_pos).1
        simp [hset] at hreg
    | packetCount c =>
      simp only [Frame.beforeExchange, stackWeight_nil] at hw
      exact (hold hreg).imp_right fun hpos => by omega
    | buffer f c b new hne hnew _ =>
      have hzero : f.beforeExchange = 0 := by
        cases f <;> first | rfl | exact absurd rfl (hne _)
      exact (hold hreg).imp_right fun hpos => by omega

theorem awake_reach (h : machine.Reach (fun s a => rioSendAccepted s a = true ∧
    clearsAfterSends s a = true) (start recvPool sendPool) s) (x : S) : Awake x s := by
  refine h.invariant (Awake x) (fun hconn => ?_) ?_
  · simp [start, System.start, Session.construct] at hconn
  · intro s a s' hr hs hok hnext
    rcases next_view x hnext with hmove | hother
    · cases hmove with
      | step t c f fs new mem hf hstep =>
        exact awake_step (hr.mono fun _ _ hok => hok.1) hok.2 hf hstep hs
      | enter t c f mem hstep =>
        obtain ⟨hc, hreg, hq, _⟩ := hstep.flags
        have hw := count_enter x x s t f mem Frame.beforeExchange
        intro hconn hclear
        refine (hs (hc ▸ hconn) (hreg ▸ hclear)).imp (fun h => hq.trans h) fun hpos => ?_
        omega
      | env c mem hstep =>
        obtain ⟨hc, hside⟩ := hstep.flags x
        simp only [Awake, hc, hside] at hs ⊢
        exact hs
    · simp only [Awake, hother.session, hother.count] at hs ⊢
      exact hs

omit [Fintype T] [DecidableEq T] in
/-- Inside `Send`, `RegisterSend` and `ProcessSend` a thread is on its way to the exchange or has
the send token. -/
theorem inSend_eq_false (f : Frame T) :
    f.inSend = false ↔ f.sendToken = 0 ∧ f.beforeExchange = 0 := by
  cases f with
  | send f =>
    cases f <;> simp [Frame.inSend, Frame.sendToken, SendFrame.token, Frame.beforeExchange]
  | disconnect f => cases f <;> simp [Frame.inSend, Frame.sendToken, Frame.beforeExchange]
  | _ => simp [Frame.inSend, Frame.sendToken, Frame.beforeExchange]

omit [DecidableEq T] in
theorem quiet_iff (x : S) (s : SystemConf T S) :
    (∀ u f, (x, f) ∈ s.frames u → f.inSend = false) ↔
      count x Frame.sendToken s = 0 ∧ count x Frame.beforeExchange s = 0 := by
  simp only [count_eq_zero, inSend_eq_false]
  exact ⟨fun h => ⟨fun u f hf => (h u f hf).1, fun u f hf => (h u f hf).2⟩,
    fun h u f hf => ⟨h.1 u f hf, h.2 u f hf⟩⟩

theorem flushed_of_awake
    (h : machine.Reach (fun s a => rioSendAccepted s a = true) (start recvPool sendPool) s) {x : S}
    (hawake : Awake x s) : Flushed x s := by
  intro hconn hquiet hout
  obtain ⟨htoken, hbefore⟩ := (quiet_iff x s).mp hquiet
  have hone := sendToken_of_connected h x hconn
  have hreg : (s.mem.session x).send.mSendRegistered = false := by
    by_contra hne
    simp [Potential.total, sendToken, hout, htoken, hne] at hone
  rcases hawake hconn hreg with hq | hpos
  · exact hq
  · omega

/-- A clear that comes too early leaves a packet behind. -/
theorem not_flushed_of_clear {s' : SystemConf T S} {t : T} {x : S} {fs : List (SessionFrame T S)}
    (h : machine.Reach (fun s a => rioSendAccepted s a = true) (start recvPool sendPool) s)
    (hf : s.frames t = (x, .send .clear) :: fs)
    (hnext : machine.next s (.step t .go) = some s')
    (hbad : clearsAfterSends s (.step t .go) = false) : ¬Flushed x s' := by
  simp only [clearsAfterSends, hf, Bool.or_eq_false_iff, Bool.not_eq_false', List.isEmpty_eq_false_iff,
    decide_eq_false_iff_not] at hbad
  obtain ⟨⟨hconn, hqueue⟩, hbefore⟩ := hbad
  have hone := sendToken_of_connected h x hconn
  obtain ⟨hreg, hout⟩ := registered_of_token (f := .send .clear) (t := t) (x := x) h
    (by simp [hf]) Nat.one_pos
  obtain ⟨mem, new, hstep, rfl⟩ := next_top hf hnext
  have htoken := count_step x hf mem new Frame.sendToken
  have hwait := count_step x hf mem new Frame.beforeExchange
  have hnew : new = [] := by
    cases hstep with
    | send f c s' new hstep => cases hstep; rfl
  subst hnew
  simp only [Potential.total, sendToken, hout, hreg, List.length_nil, if_true] at hone
  simp only [if_true, Frame.sendToken, SendFrame.token, Frame.beforeExchange, stackWeight_nil,
    List.map_nil, List.nil_append] at htoken hwait
  have hquiet : ∀ u g, (x, g) ∈ Function.update s.frames t fs u → g.inSend = false :=
    (quiet_iff x ⟨mem, Function.update s.frames t fs⟩).mpr ⟨by omega, by omega⟩
  intro hflushed
  cases hstep with
  | send f c s' new hstep =>
    cases hstep
    exact hqueue (by simpa using hflushed (by simpa using hconn) hquiet (by simpa using hout))

/-- No wakeup is lost in a run whose sends are accepted and whose clears come after the sends; and
a clear that comes too early loses one. -/
theorem flushed_reach (recvPool sendPool : RegisteredBufferPool T) :
    (∀ (s : SystemConf T S) (x : S), machine.Reach (fun s a => rioSendAccepted s a = true ∧
      clearsAfterSends s a = true) (start recvPool sendPool) s → Flushed x s) ∧
    ∀ (s s' : SystemConf T S) (a : Action T (Choice T S)),
      machine.Reach (fun s a => rioSendAccepted s a = true) (start recvPool sendPool) s →
      machine.next s a = some s' → clearsAfterSends s a = false → ∃ x, ¬Flushed x s' := by
  constructor
  · intro s x h
    exact flushed_of_awake (h.mono fun _ _ hok => hok.1) (awake_reach h x)
  · intro s s' a hr hnext hbad
    cases a with
    | step t c =>
      cases c with
      | go =>
        cases hs : s.frames t with
        | nil => simp [clearsAfterSends, hs] at hbad
        | cons g fs =>
          obtain ⟨x, g⟩ := g
          by_cases hg : g = .send .clear
          · subst hg
            exact ⟨x, not_flushed_of_clear hr hs hnext hbad⟩
          · simp only [clearsAfterSends, hs] at hbad
            split at hbad <;> simp_all
      | _ => simp [clearsAfterSends] at hbad
    | _ => simp [clearsAfterSends] at hbad

end

/-- Thread `t` dispatches a completed send and decides to clear `mSendRegistered`. -/
def sentRun {T S : Type} (t : T) (this : S) (numOfBytes : ℕ) : List (Action T (Choice T S)) :=
  [.enter t (.sent this numOfBytes), .step t .go, .step t .go, .step t .go, .step t .go,
    .step t .go]

/-- `Send` up to its exchange. -/
def enqueueRun {T S : Type} (t : T) (this : S) (packet : Packet) :
    List (Action T (Choice T S)) :=
  [.enter t (.callSend this (some packet)), .step t .go, .step t .go, .step t .go, .step t .go]

/-- The second packet is counted between the test of `mPacketCount` and the clear. -/
def countedBeforeClear {T S : Type} (t u : T) (this : S) : List (Action T (Choice T S)) :=
  connectRun t t this ++ sendRun u this ⟨[1, 2, 3]⟩ ++ sentRun t this 3 ++
    enqueueRun u this ⟨[4]⟩ ++ [.step t .go]

theorem wakeup_lost : ¬∀ s : SystemConf (Fin 2) Unit,
    machine.Reach (fun s a => rioSendAccepted s a = true) smallStart s → Flushed () s := by
  intro claim
  have hr := Machine.reach_finalChecked machine rioSendAccepted smallStart
    (countedBeforeClear 0 1 ()) (by decide)
  have hidle : ∀ u, (Machine.finalChecked machine rioSendAccepted smallStart
      (countedBeforeClear 0 1 ()) (by decide)).frames u = [] := by decide
  have h := claim _ hr (by decide) (fun u f hf => absurd (hidle u ▸ hf) List.not_mem_nil)
    (by decide)
  exact absurd h (by decide)

/-- Here the second packet is counted after the clear, and its `Send` posts it. -/
theorem flushed_reach_twoSends : ∃ s : SystemConf (Fin 2) Unit,
    (s.mem.session ()).send.posted.length = 2 ∧ Flushed () s := by
  have hr := Machine.reach_finalChecked machine
    (fun s a => rioSendAccepted s a && clearsAfterSends s a) smallStart
    (connectRun 0 0 () ++ sendRun 1 () ⟨[1, 2, 3]⟩ ++ sentRun 0 () 3 ++ [.step 0 .go] ++
      sendRun 1 () ⟨[4]⟩) (by decide)
  exact ⟨_, by decide, (flushed_reach _ _).1 _ () (hr.mono fun _ _ hok => by simpa using hok)⟩

end ServerCore.Network
