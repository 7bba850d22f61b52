import ServerCore.Network.SessionRegistry

namespace ServerCore.Network

open Framework

variable {T S : Type} [DecidableEq T] [DecidableEq S]

/-- A connected session finds a free slice when it acquires its buffers, and a `Send` that finds its
session connected comes after the assignment of `mSendBuffer`. -/
def suppliesBuffers (s : SystemConf T S) : Action T (Choice T S) → Bool
  | .step t _ =>
      match s.frames t with
      | (x, .connect (.acquire pool)) :: _ =>
          !(s.mem.session x).mIsConnected || decide (0 < (s.mem.pool pool).getFreeCount)
      | (x, .send (.send _)) :: _ =>
          !(s.mem.session x).mIsConnected || (s.mem.session x).send.mSendBuffer.isSome
      | _ => true
  | _ => true

/-- Positions of `RegisterSend` at which it goes on to use `mSendBuffer`. -/
def SendFrame.reads : SendFrame T → Bool
  | .prepare _ | .dequeue _ | .copy .. | .post .. => true
  | _ => false

/-- A connected session owns both buffers, and `RegisterSend` finds `mSendBuffer`. -/
structure OwnsBuffers (x : S) (s : SystemConf T S) : Prop where
  returned : .connectReturned ∈ (s.mem.session x).events →
    (s.mem.session x).mIsConnected = true → ∀ p, ((s.mem.session x).buffer p).isSome = true
  registers : ∀ t f, (x, .send f) ∈ s.frames t → f.reads = true →
    (s.mem.session x).send.mSendBuffer.isSome = true

def Frame.adding : Frame T → ℕ
  | .connect .addSession => 1
  | _ => 0

/-- A connected session is alive: it is in `mSessions`, or on the way to it. -/
structure ConnectedLives [Fintype T] (x : S) (s : SystemConf T S) : Prop where
  live : (s.mem.session x).destroyed = true → (s.mem.session x).mIsConnected = false
  added : (s.mem.session x).mIsConnected = true →
    x ∈ s.mem.mSessions ∨ 0 < count x Frame.adding s

theorem FrameStep.processConnect {this : S} {t : T} {σ σ' : System T S} {f : Frame T}
    {c : Choice T S} {new : List (Frame T)} (h : FrameStep this t σ f c σ' new)
    (hf : f = .connect .processConnect) : new = [.connect .addSession] := by
  subst hf
  cases h with
  | connect f c σ' new h =>
    cases h with
    | processConnect => rfl
    | refuse f hf => simp at hf

section

variable [Fintype T] {m : Machine T (System T S) (SessionFrame T S) (Choice T S)} [Specified m]
  {recvPool sendPool : RegisteredBufferPool T}
  {ok : SystemConf T S → Action T (Choice T S) → Prop} {s : SystemConf T S}

/-- Who releases a session finds it disconnected. -/
theorem not_connected_of_departing (h : m.Reach ok (start recvPool sendPool) s) {x : S} {t : T}
    {f : Frame T} (hf : (x, f) ∈ s.frames t) (hd : 0 < f.departing) :
    (s.mem.session x).mIsConnected = false := by
  have htoken := (disconnectToken.le_total hf).trans (disconnectToken_le h x)
  have hone : f.departing ≤ f.disconnectToken := by
    cases f with
    | disconnect f => exact le_rfl
    | _ => exact Nat.zero_le _
  simp only [disconnectToken] at htoken
  cases hc : (s.mem.session x).mIsConnected with
  | false => rfl
  | true =>
    rw [hc, Bool.toNat_true] at htoken
    omega

theorem connectedLives_reach (h : m.Reach ok (start recvPool sendPool) s) (x : S) :
    ConnectedLives x s := by
  refine h.invariant (ConnectedLives x) ?_ ?_
  · exact ⟨fun _ => rfl, fun hc => by simp [start, System.start, Session.construct] at hc⟩
  intro s a s' hr hs _ hnext
  rcases next_view x hnext with hmove | hother
  · cases hmove with
    | step t c f fs new mem hf hstep =>
      have htop : (x, f) ∈ s.frames t := hf ▸ List.mem_cons_self
      have hcount := count_step x hf mem new Frame.adding
      simp only [if_true] at hcount
      constructor
      · intro hd
        have hdead : (s.mem.session x).destroyed = true := hstep.destroyed.symm.trans hd
        by_contra hc
        have hf' : f ≠ .connect .processConnect := by
          rintro rfl
          have hlive := ((lifetime_reach hr x).2 t _ htop).1 rfl
          simp [hlive] at hdead
        have hbefore := hstep.connected hf' (by simpa using hc)
        simp [hs.live hdead] at hbefore
      · intro hc
        by_cases hf' : f = .connect .processConnect
        · subst hf'
          obtain rfl := hstep.processConnect rfl
          apply Or.inr
          simp only [stackWeight_cons, stackWeight_nil, Frame.adding] at hcount
          omega
        · have hc := hstep.connected hf' hc
          rcases hstep.registration with ⟨_, hm, _⟩ | ⟨hrel, _⟩ | ⟨hnone, hm, _⟩
          · exact .inl (by simp [hm])
          · have hleft := not_connected_of_departing hr htop (Frame.departing_of_released hrel)
            simp [hleft] at hc
          · rcases hs.added hc with hmem | hpos
            · exact .inl (by rw [hm]; exact hmem)
            · apply Or.inr
              have hzero : f.adding = 0 := by
                cases f with
                | connect f => cases f <;> first | rfl | simp [Frame.registration] at hnone
                | _ => rfl
              omega
    | enter t c f mem hstep =>
      have hcount := count_enter x x s t f mem Frame.adding
      simp only [if_true] at hcount
      have hsame : (mem.session x).mIsConnected = (s.mem.session x).mIsConnected := by
        cases hstep <;> simp
      constructor
      · intro hd
        rw [hsame]
        cases hstep with
        | destroy this _ _ hm _ hholds =>
          by_contra hc
          rcases hs.added (by simpa using hc) with hmem | hpos
          · exact hm hmem
          · have hnone : count x Frame.adding s = 0 := by
              apply count_eq_zero.mpr
              intro u g hg
              have hfree := hholds u _ hg rfl
              cases g with
              | connect g => cases g <;> first | rfl | simp [Frame.holds] at hfree
              | _ => rfl
            omega
        | send | disconnect | connect => exact hs.live hd
        | _ => exact hs.live (by simpa using hd)
      · intro hc
        rcases hs.added (hsame ▸ hc) with hmem | hpos
        · exact .inl (by rw [hstep.registries.1]; exact hmem)
        · exact .inr (by omega)
    | env c mem hstep =>
      obtain ⟨_, _, he, _⟩ := hstep.session x
      have hm : mem.mSessions = s.mem.mSessions := by cases hstep <;> rfl
      constructor
      · intro hd
        simp only [he] at hd ⊢
        exact hs.live hd
      · intro hc
        simp only [he] at hc
        rcases hs.added hc with hmem | hpos
        · exact .inl (by rw [hm]; exact hmem)
        · exact .inr hpos
  · constructor
    · rw [hother.session]
      exact hs.live
    · intro hc
      rw [hother.mSessions, hother.count]
      exact hs.added (hother.session ▸ hc)

/-- A buffer that an existing session owns stays with it. -/
theorem FrameStep.buffer_isSome {x : S} {t : T} {f : Frame T} {fs : List (SessionFrame T S)}
    {c : Choice T S} {mem : System T S} {new : List (Frame T)}
    (h : m.Reach ok (start recvPool sendPool) s) (hf : s.frames t = (x, f) :: fs)
    (hstep : FrameStep x t s.mem f c mem new) (hlive : (s.mem.session x).destroyed = false)
    {p : Pool} (hp : ((s.mem.session x).buffer p).isSome = true) :
    ((mem.session x).buffer p).isSome = true := by
  cases p with
  | recv =>
    have heffect := hstep.recvSide
    simp only [Session.buffer] at hp ⊢
    generalize (mem.session x).recv = s' at heffect ⊢
    cases heffect with
    | recv f s' new h => cases h <;> first | exact hp | rfl
    | buffer f b new _ _ hb =>
      rcases recvBuffer_kept h hf hb with he | he | he
      · simpa [he] using hp
      · simp [he] at hp
      · simp [he] at hlive
  | send =>
    have heffect := hstep.sendSide
    simp only [Session.buffer] at hp ⊢
    generalize (mem.session x).send = s' at heffect ⊢
    cases heffect with
    | send f c s' new h => cases h <;> first | exact hp | rfl
    | packetCount c => exact hp
    | buffer f c b new _ _ hb =>
      rcases sendBuffer_kept h hf hb with he | he | he
      · simpa [he] using hp
      · simp [he] at hp
      · simp [he] at hlive

end

/-- The frame is inside `Send`, past its `IsConnected`, or serves a completion of a send. -/
def Frame.useBuffer : Frame T → Bool
  | .send (.send _) => false
  | .send _ => true
  | _ => false

/-- Who sends, or has sent, does it with the send buffer. -/
def sendsBuffered : Assertion T S where
  session s := s.destroyed = false → s.send.outstanding ≠ [] → s.send.mSendBuffer.isSome = true
  frame s f := s.destroyed = false → f.useBuffer = true → s.send.mSendBuffer.isSome = true

omit [DecidableEq T] in
theorem Frame.useBuffer_of_inSend {f : Frame T} (h : f.inSend = false) : f.useBuffer = false := by
  cases f with
  | send f => simp [Frame.inSend] at h
  | _ => rfl

/-- The frame has acquired the buffer of the pool for its session. -/
def Frame.acquired : Pool → Frame T → Bool
  | .recv, .connect (.acquire .send) | .recv, .connect (.tryDequeue .send)
  | .recv, .connect (.useCount .send _) | .recv, .connect (.assign .send _) => true
  | _, .connect .createRIORQ | _, .connect .setSessionID | _, .connect .onConnected
  | _, .connect .enterRoom => true
  | _, _ => false

/-- What `ProcessConnect` goes on with after a step. -/
structure Connecting (f g : Frame T) (free : Pool → Int) (buffer : Pool → Option NetworkBuffer) :
    Prop where
  acquired : ∀ p, g.acquired p = true → f.acquired p = true ∨
    f = .connect (.assign p (buffer p)) ∨ f = .connect (.assign .recv none)
  noFree : ∀ p, g = .connect (.assign p none) → f = .connect (.acquire p) ∧ free p ≤ 0
  returned : g = .connect .returned → f = .connect .enterRoom

omit [DecidableEq T] in
/-- A frame outside of `ProcessConnect` has nothing to show. -/
theorem Connecting.outside {f g : Frame T} {free : Pool → Int}
    {buffer : Pool → Option NetworkBuffer} (h : ∀ k, g ≠ .connect k) :
    Connecting f g free buffer := by
  refine ⟨?_, fun p he => absurd he (h _), fun he => absurd he (h _)⟩
  intro p hp
  cases g with
  | connect k => exact absurd rfl (h k)
  | _ => cases p <;> simp [Frame.acquired] at hp

theorem FrameStep.connecting {this : S} {t : T} {σ σ' : System T S} {f : Frame T} {c : Choice T S}
    {new : List (Frame T)} (h : FrameStep this t σ f c σ' new) :
    ∀ g ∈ new, Connecting f g (fun p => (σ.pool p).getFreeCount) (σ'.session this).buffer := by
  cases h with
  | send f c s' new h =>
    intro g hg
    exact .outside (by cases h <;> simp_all)
  | recv f c s' new h =>
    intro g hg
    exact .outside (by cases h <;> simp_all)
  | connect f c σ' new h =>
    cases h with
    | assign p b =>
      refine forall_releaseFrames _ _ _ (fun b _ => .outside (by simp)) ⟨?_, ?_, ?_⟩
      · intro q hq
        cases p <;> cases b <;> cases q <;> simp_all [Frame.acquired, afterAssign, Session.buffer]
      · intro q hq
        cases p <;> cases b <;> simp [afterAssign] at hq
      · intro hq
        cases p <;> cases b <;> simp [afterAssign] at hq
    | noFree p hfree =>
      refine List.forall_mem_singleton.mpr ⟨?_, ?_, by simp⟩
      · intro q hq
        cases p <;> cases q <;> simp_all [Frame.acquired]
      · intro q hq
        simp only [Frame.connect.injEq, ConnectFrame.assign.injEq, and_true] at hq
        exact ⟨by rw [hq], hq ▸ hfree⟩
    | acquire p _ | tryDequeue p _ _ _ _ | useCount p b =>
      refine List.forall_mem_singleton.mpr ⟨?_, by simp, by simp⟩
      intro q hq
      cases p <;> cases q <;> simp_all [Frame.acquired]
    | createFail =>
      intro g hg
      rcases List.mem_cons.mp hg with rfl | hg
      · exact .outside (by simp)
      · obtain rfl := List.mem_singleton.mp hg
        exact ⟨fun q _ => .inl (by cases q <;> rfl), by simp, by simp⟩
    | enterRoom =>
      intro g hg
      rcases List.mem_cons.mp hg with rfl | hg
      · exact .outside (by simp)
      · obtain rfl := List.mem_singleton.mp hg
        exact ⟨fun q hq => by cases q <;> simp [Frame.acquired] at hq, by simp, fun _ => rfl⟩
    | createRIORQ | setSessionID | onConnected =>
      refine List.forall_mem_singleton.mpr ⟨fun q _ => .inl (by cases q <;> rfl), by simp, by simp⟩
    | refuse | connectEx | rejected | returned => simp
    | _ =>
      refine List.forall_mem_singleton.mpr ⟨fun q hq => ?_, by simp, by simp⟩
      cases q <;> simp [Frame.acquired] at hq
  | disconnect f c σ' new h =>
    intro g hg
    exact .outside (by cases h <;> simp_all)
  | destroy f c σ' new h =>
    cases h with
    | recvBuffer | sendBuffer =>
      exact forall_releaseFrames _ _ _ (fun b _ => .outside (by simp)) (.outside (by simp))
    | _ => intro g hg; exact .outside (by simp_all)

/-- A connected session is given each buffer on the way to its `OnConnected`. -/
def connectBuffered : Assertion T S where
  session s :=
    (.connectReturned ∈ s.events → .connectedReturned ∈ s.events) ∧
      (.connectedReturned ∈ s.events → s.mIsConnected = true → ∀ p, (s.buffer p).isSome = true)
  frame s f :=
    (s.mIsConnected = true → ∀ p, (f.acquired p = true → (s.buffer p).isSome = true) ∧
      f ≠ .connect (.assign p none)) ∧
      (f = .connect .returned → .connectedReturned ∈ s.events)

section

variable [Fintype T] {m : Machine T (System T S) (SessionFrame T S) (Choice T S)} [Specified m]
  {recvPool sendPool : RegisteredBufferPool T}
  {ok : SystemConf T S → Action T (Choice T S) → Prop} {s : SystemConf T S}

theorem sendsBuffered_reach (hok : ∀ s a, ok s a → suppliesBuffers s a = true)
    (h : m.Reach ok (start recvPool sendPool) s) (x : S) : sendsBuffered.Holds x s := by
  refine Assertion.reach h ?init ?step ?beside ?enter ?env
  case init => simp [sendsBuffered, Session.construct]
  case step =>
    intro s t c f fs mem new hr hallowed hf hstep hs htop
    have hkept := fun hlive => hstep.buffer_isSome (p := .send) hr hf hlive
    simp only [sendsBuffered, hstep.destroyed] at hs htop ⊢
    simp only [Session.buffer] at hkept
    have heffect := hstep.sendSide
    generalize (mem.session x).send = s' at heffect hkept ⊢
    cases heffect with
    | send f c s' new h =>
      by_cases huse : (Frame.send f).useBuffer = true
      · exact ⟨fun hlive _ => hkept hlive (htop hlive huse),
          fun g _ hlive _ => hkept hlive (htop hlive huse)⟩
      · cases h with
        | refuse buffer _ => exact ⟨hs, by simp⟩
        | accept buffer hconnected =>
          have hbuffer := hok _ _ hallowed
          simp only [suppliesBuffers, hf, hconnected, Bool.not_true, Bool.false_or] at hbuffer
          exact ⟨hs, fun g _ _ _ => hbuffer⟩
        | _ => simp [Frame.useBuffer] at huse
    | packetCount c => exact ⟨hs, by simp⟩
    | buffer f c b new _ hnew _ =>
      refine ⟨fun hlive ho => hkept hlive (hs hlive ho), ?_⟩
      intro g hg _ huse
      simp [Frame.useBuffer_of_inSend (hnew g hg)] at huse
  case beside =>
    intro s t c f fs mem new u g hr hf _ hstep _ _ hg hlive huse
    rw [hstep.destroyed] at hlive
    exact hstep.buffer_isSome (p := .send) hr hf hlive (hg hlive huse)
  case enter =>
    intro s t c f mem hr _ hstep hs
    have hlive := hstep.not_destroyed
    simp only [sendsBuffered] at hs ⊢
    cases hstep with
    | sent this n post rest ho _ =>
      have hbuffer (hd : (s.mem.session x).destroyed = false) := hs hd (by simp [ho])
      simp only [System.set_session_self]
      exact ⟨fun hd _ => hbuffer hd, fun hd _ => hbuffer hd, fun u g _ hg => hg⟩
    | send | disconnect | connect => exact ⟨hs, by simp [Frame.useBuffer], fun u g _ hg => hg⟩
    | _ =>
      simp only [System.set_session_self] at hlive ⊢
      exact ⟨fun hd => hs (hlive hd), by simp [Frame.useBuffer], fun u g _ hg hd => hg (hlive hd)⟩
  case env =>
    intro s mem hstep hs
    obtain ⟨_, _, he, _⟩ := hstep.session x
    rw [he]
    exact ⟨hs, fun u g _ hg => hg⟩

theorem connectBuffered_step (hok : ∀ s a, ok s a → suppliesBuffers s a = true) {x : S} {t : T}
    {c : Choice T S} {f : Frame T} {fs : List (SessionFrame T S)} {mem : System T S}
    {new : List (Frame T)} (hr : m.Reach ok (start recvPool sendPool) s)
    (hallowed : ok s (.step t c)) (hf : s.frames t = (x, f) :: fs)
    (hstep : FrameStep x t s.mem f c mem new) (hs : connectBuffered.session (s.mem.session x))
    (htop : connectBuffered.frame (s.mem.session x) f) :
    connectBuffered.session (mem.session x) ∧
      ∀ g ∈ new, connectBuffered.frame (mem.session x) g := by
  have hmem : (x, f) ∈ s.frames t := hf ▸ List.mem_cons_self
  have hlive (hc : (s.mem.session x).mIsConnected = true) : (s.mem.session x).destroyed = false := by
    by_contra hd
    simp [(connectedLives_reach hr x).live (by simpa using hd)] at hc
  have hkept (hc : (s.mem.session x).mIsConnected = true) (p : Pool)
      (hp : ((s.mem.session x).buffer p).isSome = true) :
      ((mem.session x).buffer p).isSome = true := hstep.buffer_isSome hr hf (hlive hc) hp
  have hbefore (hc : (mem.session x).mIsConnected = true) (hf' : f ≠ .connect .processConnect) :=
    hstep.connected hf' hc
  obtain ⟨hreturned, howned⟩ := hs
  obtain ⟨hacquired, hreturning⟩ := htop
  refine ⟨⟨?_, ?_⟩, fun g hg => ⟨?_, ?_⟩⟩
  · intro he
    rcases hstep.events.connectReturned_mem he with he | rfl
    · exact hstep.events.mono (hreturned he)
    · exact hstep.events.mono (hreturning rfl)
  · intro he hc p
    rcases hstep.events.connectedReturned_mem he with he | rfl
    · have hc := hbefore hc (by rintro rfl; exact not_returned_of_token hr hmem rfl he)
      exact hkept hc p (howned he hc p)
    · have hc := hbefore hc (by simp)
      exact hkept hc p ((hacquired hc p).1 (by cases p <;> rfl))
  · intro hc p
    have hnext := hstep.connecting g hg
    by_cases hf' : f = .connect .processConnect
    · subst hf'
      constructor
      · intro hp
        rcases hnext.acquired p hp with hp | hp | hp
        · cases p <;> simp [Frame.acquired] at hp
        · simp at hp
        · simp at hp
      · intro he
        simpa using (hnext.noFree p he).1
    · have hc := hbefore hc hf'
      constructor
      · intro hp
        rcases hnext.acquired p hp with hp | hp | hp
        · exact hkept hc p ((hacquired hc p).1 hp)
        · cases hb : (mem.session x).buffer p with
          | none => exact absurd (hb ▸ hp) (hacquired hc p).2
          | some b => rfl
        · exact absurd hp (hacquired hc .recv).2
      · intro he
        obtain ⟨rfl, hfree⟩ := hnext.noFree p he
        have hsupplied := hok _ _ hallowed
        simp only [suppliesBuffers, hf, hc, Bool.not_true, Bool.false_or, decide_eq_true_eq]
          at hsupplied
        omega
  · intro he
    obtain rfl := (hstep.connecting g hg).returned he
    cases hstep with
    | connect f c σ' new h =>
      cases h with
      | enterRoom => simp [Session.record]
      | refuse f hf => simp at hf

omit [DecidableEq T] [Fintype T] in
theorem Frame.connectedToken_of_acquired {f : Frame T} {p : Pool} (h : f.acquired p = true) :
    f.connectedToken = 1 := by
  cases f with
  | connect f => cases f <;> first | rfl | (cases p <;> simp [Frame.acquired] at h)
  | _ => cases p <;> simp [Frame.acquired] at h

theorem connectBuffered_reach (hok : ∀ s a, ok s a → suppliesBuffers s a = true)
    (h : m.Reach ok (start recvPool sendPool) s) (x : S) : connectBuffered.Holds x s := by
  refine Assertion.reach h ?init ?step ?beside ?enter ?env
  case init => simp [connectBuffered, Session.construct]
  case step =>
    intro s t c f fs mem new hr hallowed hf hstep hs htop
    exact connectBuffered_step hok hr hallowed hf hstep hs htop
  case beside =>
    intro s t c f fs mem new u g hr hf _ hstep hb _ hg
    refine ⟨?_, fun he => hstep.events.mono (hg.2 he)⟩
    intro hc p
    by_cases hf' : f = .connect .processConnect
    · -- no other thread is on the way to `OnConnected`
      have htoken := (hb connectedToken).trans (connectedToken_le hr x)
      have hone : f.connectedToken = 1 := by rw [hf']; rfl
      simp only [connectedToken, hone] at htoken
      constructor
      · intro hp
        have hgone := Frame.connectedToken_of_acquired hp
        omega
      · intro he
        have hgone : g.connectedToken = 1 := by rw [he]; rfl
        omega
    · have hc := hstep.connected hf' hc
      have hlive : (s.mem.session x).destroyed = false := by
        by_contra hd
        simp [(connectedLives_reach hr x).live (by simpa using hd)] at hc
      exact ⟨fun hp => hstep.buffer_isSome hr hf hlive ((hg.1 hc p).1 hp), (hg.1 hc p).2⟩
  case enter =>
    intro s t c f mem _ _ hstep hs
    have hsame : connectBuffered.session (mem.session x) ∧
        ∀ g : Frame T, connectBuffered.frame (s.mem.session x) g →
          connectBuffered.frame (mem.session x) g := by
      cases hstep with
      | send | disconnect | connect => exact ⟨hs, fun g hg => hg⟩
      | _ =>
        simp only [System.set_session_self]
        refine ⟨⟨hs.1, ?_⟩, fun g hg => ⟨fun hc p => ⟨?_, ?_⟩, hg.2⟩⟩
        · intro he hc p
          have hp := hs.2 he hc p
          cases p <;> exact hp
        · intro hp
          have hp := (hg.1 hc p).1 hp
          cases p <;> exact hp
        · exact (hg.1 hc p).2
    refine ⟨hsame.1, hsame.2 f ?_, fun u g _ => hsame.2 g⟩
    refine ⟨fun _ p => ⟨?_, ?_⟩, ?_⟩
    · intro hp
      cases hstep <;> cases p <;> simp [Frame.acquired] at hp
    · cases hstep <;> simp
    · cases hstep <;> simp
  case env =>
    intro s mem hstep hs
    obtain ⟨_, _, he, _⟩ := hstep.session x
    rw [he]
    refine ⟨⟨hs.1, ?_⟩, fun u g _ hg => ⟨fun hc p => ⟨?_, ?_⟩, hg.2⟩⟩
    · intro hd hc p
      have hp := hs.2 hd hc p
      cases p <;> exact hp
    · intro hp
      have hp := (hg.1 hc p).1 hp
      cases p <;> exact hp
    · exact (hg.1 hc p).2

/-- In a run in which each acquisition for a connected session finds a free slice and no `Send` comes
before the assignment of `mSendBuffer`, a connected session owns both of its buffers. -/
theorem owns_buffers
    (h : startupMachine.Reach (fun s a => suppliesBuffers s a = true) (start recvPool sendPool) s)
    (x : S) : OwnsBuffers x s := by
  have hconnect := connectBuffered_reach (fun _ _ hok => hok) h x
  have hsend := sendsBuffered_reach (fun _ _ hok => hok) h x
  refine ⟨fun hreturned hc => hconnect.1.2 (hconnect.1.1 hreturned) hc, ?_⟩
  intro t f hf hreads
  have huse : (Frame.send f).useBuffer = true := by
    cases f <;> first | rfl | simp [SendFrame.reads] at hreads
  have halive : (Frame.send f).alive = true := by
    cases f <;> first | rfl | simp [SendFrame.reads] at hreads
  exact (hsend.2 t _ hf) (((lifetime_reach h x).2 t _ hf).1 halive) huse

end

/-- `ProcessConnect` by thread `t` while no slice is free. -/
def noSliceRun {T S : Type} (t : T) (this : S) : List (Action T (Choice T S)) :=
  [.env (.acceptEx this), .enter t (.accepted this), .step t .go, .step t .go, .step t .go,
    .step t .go, .step t (.result true), .step t .go, .step t .go, .step t .go, .step t .go,
    .step t .go, .step t .go]

theorem connected_without_buffers : ¬∀ s : SystemConf (Fin 2) Unit,
    startupMachine.Reach (fun _ _ => True) (start .empty .empty) s → OwnsBuffers () s := by
  intro claim
  have hr := Machine.reach_final startupMachine (start (S := Unit) .empty .empty)
    (noSliceRun (0 : Fin 2) ()) (by decide)
  have howned := (claim _ hr).returned (by decide) (by decide) .recv
  exact absurd howned (by decide)

/-- The server accepts first, and fills its pools before the session acquires. -/
def startupRun {T S : Type} (t u : T) (this : S) : List (Action T (Choice T S)) :=
  ((connectRun u t this).take 2) ++ [.env (.allocBuffer .recv u 1 0), .step t .go, .step t .go,
    .env (.allocBuffer .send u 2 0)] ++ (connectRun u t this).drop 4

theorem owns_buffers_startup : ∃ s : SystemConf (Fin 2) Unit,
    .connectReturned ∈ (s.mem.session ()).events ∧ (s.mem.session ()).mIsConnected = true ∧
      OwnsBuffers () s := by
  have hr := Machine.reach_finalChecked startupMachine suppliesBuffers (start .empty .empty)
    (startupRun (0 : Fin 2) 1 ()) (by decide)
  exact ⟨_, by decide, by decide, owns_buffers hr ()⟩

end ServerCore.Network
