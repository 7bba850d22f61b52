import ServerCore.Network.SendStream

namespace ServerCore.Network

open Framework

variable {T S : Type} [DecidableEq T] [DecidableEq S]

/-- A step as the history of its session sees it. -/
inductive EventEffect (events : List Event) : Frame T → List Event → List (Frame T) → Prop
  | connectedReturned : EventEffect events (.connect .enterRoom) (events ++ [.connectedReturned])
      [.recv .register, .connect .returned]
  | connectReturned :
      EventEffect events (.connect .returned) (events ++ [.connectReturned]) []
  | disconnectedCalled : EventEffect events (.disconnect .processDisconnect)
      (events ++ [.disconnectedCalled]) [.disconnect .onDisconnected]
  | disconnectReturned :
      EventEffect events (.disconnect .releaseSession) (events ++ [.disconnectReturned]) []
  | none (f new) : f ≠ .connect .enterRoom → EventEffect events f events new

theorem FrameStep.events {this : S} {t : T} {σ σ' : System T S} {f : Frame T} {c : Choice T S}
    {new : List (Frame T)} (h : FrameStep this t σ f c σ' new) :
    EventEffect (σ.session this).events f (σ'.session this).events new := by
  cases h with
  | send f c s' new h =>
    rw [System.set_session_self]
    exact .none _ _ (by simp)
  | recv f c s' new h =>
    rw [System.set_session_self]
    exact .none _ _ (by simp)
  | connect f c σ' new h =>
    cases h with
    | enterRoom => simpa [Session.record] using EventEffect.connectedReturned
    | returned => simpa [Session.record] using EventEffect.connectReturned
    | refuse f hf => exact .none _ _ (by rintro ⟨⟩; simp at hf)
    | _ => simpa using EventEffect.none _ _ (by simp)
  | disconnect f c σ' new h =>
    cases h with
    | processDisconnect => simpa [Session.record] using EventEffect.disconnectedCalled
    | releaseSession => simpa [Session.record] using EventEffect.disconnectReturned
    | _ => simpa using EventEffect.none _ _ (by simp)
  | destroy f c σ' new h => cases h <;> simpa using EventEffect.none _ _ (by simp)

/-- Frames on the way to the return of `OnConnected`. -/
def Frame.connectedToken : Frame T → ℕ
  | .connect f => f.beforeRecv
  | _ => 0

/-- The right to return from `OnConnected`. -/
def connectedToken : Potential T S :=
  ⟨fun s => s.unconnected + s.events.count .connectedReturned, Frame.connectedToken⟩

theorem connectedToken_decreases : (connectedToken : Potential T S).Decreases := by
  constructor
  · intro this t σ f c σ' new h
    cases h with
    | send f c s' new h =>
      cases h <;> simp [connectedToken, Frame.connectedToken, Session.unconnected]
    | recv f c s' new h =>
      cases h <;> simp [connectedToken, Frame.connectedToken, Session.unconnected]
    | connect f c σ' new h =>
      cases h with
      | refuse f hf => rcases hf with rfl | rfl | rfl <;> simp [connectedToken]
      | bind hb =>
        simp +arith [connectedToken, Frame.connectedToken, Session.unconnected, ConnectFrame.beforeRecv,
          hb]
      | connectEx =>
        simp [connectedToken, Frame.connectedToken, Session.unconnected, ConnectFrame.beforeRecv]
        omega
      | assign p b =>
        simp [connectedToken, Frame.connectedToken, Session.unconnected,
          stackWeight_releaseFrames Frame.connectedToken fun _ => rfl]
        exact le_refl 1
      | _ =>
        simp [connectedToken, Frame.connectedToken, Session.unconnected, ConnectFrame.beforeRecv,
          Session.record, Nat.add_assoc]
    | disconnect f c σ' new h =>
      cases h <;>
        simp [connectedToken, Frame.connectedToken, Session.unconnected, Session.record]
    | destroy f c σ' new h =>
      cases h <;>
        simp [connectedToken, Frame.connectedToken, Session.unconnected,
          stackWeight_releaseFrames Frame.connectedToken fun _ => rfl]
  · intro σ σ' frames c this f h
    cases h with
    | accepted this ha =>
      simp +arith [connectedToken, Frame.connectedToken, Session.unconnected, ConnectFrame.beforeRecv, ha]
    | connected this hc =>
      simp [connectedToken, Frame.connectedToken, Session.unconnected, ConnectFrame.beforeRecv]
      omega
    | _ =>
      simp [connectedToken, Frame.connectedToken, Session.unconnected, ConnectFrame.beforeRecv]
  · intro σ σ' x h
    obtain ⟨_, _, he, hle, _⟩ := h.session x
    simp only [Session.unconnected, he] at hle
    simp only [connectedToken, Session.unconnected, he]
    omega

/-- `OnConnected` completed before `OnDisconnected` started, if that started. -/
def Ordered (events : List Event) : Prop :=
  ∀ before after, events = before ++ .disconnectedCalled :: after → .connectedReturned ∈ before

theorem Ordered.append {events : List Event} (h : Ordered events) {e : Event}
    (he : e = .disconnectedCalled → .connectedReturned ∈ events) : Ordered (events ++ [e]) :=
  Machine.Precedes.append h he

/-- A `Disconnect` that found its session connected, up to the end of `ProcessDisconnect`. -/
def Frame.departing : Frame T → ℕ
  | .disconnect f => f.effective
  | _ => 0

/-- The session departs after `OnConnected` has returned. -/
def departure : Assertion T S where
  session s := (0 < s.disconnecting → .connectedReturned ∈ s.events) ∧
    (.disconnectReturned ∈ s.events → .connectedReturned ∈ s.events) ∧ Ordered s.events
  frame s f := 0 < f.departing → .connectedReturned ∈ s.events

/-- A `Disconnect` that has an effect comes after the return of `OnConnected`. -/
def disconnectsConnected (s : SystemConf T S) : Action T (Choice T S) → Bool
  | .step t _ =>
      match s.frames t with
      | (x, .disconnect (.disconnect _)) :: _ =>
          !(s.mem.session x).mIsConnected ||
            decide (.connectedReturned ∈ (s.mem.session x).events)
      | _ => true
  | _ => true

omit [DecidableEq T] in
theorem EventEffect.mono {events events' : List Event} {f : Frame T} {new : List (Frame T)}
    (h : EventEffect events f events' new) {e : Event} (he : e ∈ events) : e ∈ events' := by
  cases h <;> simp [he]

omit [DecidableEq T] in
theorem EventEffect.disconnectReturned_mem {events events' : List Event} {f : Frame T}
    {new : List (Frame T)} (h : EventEffect events f events' new)
    (he : .disconnectReturned ∈ events') :
    .disconnectReturned ∈ events ∨ f = .disconnect .releaseSession := by
  cases h <;> simp_all

omit [DecidableEq T] in
theorem EventEffect.connectedReturned_mem {events events' : List Event} {f : Frame T}
    {new : List (Frame T)} (h : EventEffect events f events' new)
    (he : .connectedReturned ∈ events') :
    .connectedReturned ∈ events ∨ f = .connect .enterRoom := by
  cases h <;> simp_all

omit [DecidableEq T] in
theorem EventEffect.connectReturned_mem {events events' : List Event} {f : Frame T}
    {new : List (Frame T)} (h : EventEffect events f events' new)
    (he : .connectReturned ∈ events') :
    .connectReturned ∈ events ∨ f = .connect .returned := by
  cases h <;> simp_all

/-- What a step does to the departure of its session. -/
theorem FrameStep.departure {this : S} {t : T} {σ σ' : System T S} {f : Frame T} {c : Choice T S}
    {new : List (Frame T)} (h : FrameStep this t σ f c σ' new)
    (hok : ∀ cause, f = .disconnect (.disconnect cause) →
      (σ.session this).mIsConnected = true → .connectedReturned ∈ (σ.session this).events)
    (hs : departure.session (σ.session this)) (hf : departure.frame (σ.session this) f) :
    departure.session (σ'.session this) ∧ ∀ g ∈ new, departure.frame (σ'.session this) g := by
  obtain ⟨hdisconnecting, hreturned, hordered⟩ := hs
  simp only [Network.departure] at hf ⊢
  cases h with
  | send f c s' new h =>
    simp only [System.set_session_self]
    refine ⟨⟨hdisconnecting, hreturned, hordered⟩, ?_⟩
    cases h <;> simp [Frame.departing, DisconnectFrame.effective]
  | recv f c s' new h =>
    simp only [System.set_session_self]
    refine ⟨⟨hdisconnecting, hreturned, hordered⟩, ?_⟩
    cases h <;> simp [Frame.departing, DisconnectFrame.effective]
  | connect f c σ' new h =>
    cases h with
    | assign pool b =>
      refine ⟨by simpa using ⟨hdisconnecting, hreturned, hordered⟩, ?_⟩
      exact forall_releaseFrames _ _ _ (by simp [Frame.departing]) (by simp [Frame.departing])
    | enterRoom =>
      simp [Session.record, Frame.departing, hordered.append (e := .connectedReturned) (by simp)]
    | returned =>
      simpa [Session.record] using
        ⟨hdisconnecting, hreturned, hordered.append (e := .connectReturned) (by simp)⟩
    | _ =>
      refine ⟨by simpa using ⟨hdisconnecting, hreturned, hordered⟩, ?_⟩
      simp [Frame.departing, DisconnectFrame.effective]
  | disconnect f c σ' new h =>
    cases h with
    | disconnect cause hc =>
      refine ⟨by simpa using ⟨hdisconnecting, hreturned, hordered⟩, ?_⟩
      simpa using fun _ => hok cause rfl hc
    | processDisconnect =>
      have hmem := hf Nat.one_pos
      simp [Session.record, hmem, hordered.append fun _ => hmem]
    | releaseSession =>
      have hmem := hf Nat.one_pos
      simp [Session.record, hmem, hordered.append (e := .disconnectReturned) (by simp)]
    | again cause _ => simpa using ⟨hdisconnecting, hreturned, hordered⟩
    | _ =>
      have hmem := hf Nat.one_pos
      simp [hmem, hordered]
  | destroy f c σ' new h =>
    cases h with
    | recvBuffer | sendBuffer =>
      refine ⟨by simpa using ⟨hdisconnecting, hreturned, hordered⟩, ?_⟩
      exact forall_releaseFrames _ _ _ (by simp [Frame.departing]) (by simp [Frame.departing])
    | _ =>
      refine ⟨by simpa using ⟨hdisconnecting, hreturned, hordered⟩, ?_⟩
      simp [Frame.departing]

/-- The frame puts its session into a registry. -/
def Frame.inserts : Frame T → Bool
  | .connect .addSession | .connect .onConnected => true
  | _ => false

/-- `OnDisconnected` has taken the session of the frame out of `_sessions`. -/
def Frame.erased : Frame T → Bool
  | .disconnect .leaveRoom | .disconnect .releaseSession => true
  | _ => false

omit [DecidableEq T] in
theorem Frame.departing_of_erased {f : Frame T} (h : f.erased = true) : 0 < f.departing := by
  cases f with
  | disconnect f =>
    cases f <;> first | exact Nat.one_pos | simp [Frame.erased] at h
  | _ => simp [Frame.erased] at h

theorem FrameStep.not_erased_of_inserts {this : S} {t : T} {σ σ' : System T S} {f : Frame T}
    {c : Choice T S} {new : List (Frame T)} (h : FrameStep this t σ f c σ' new)
    (hf : f.inserts = true) : ∀ g ∈ new, g.erased = false := by
  cases h with
  | connect f c σ' new h =>
    cases h with
    | addSession | onConnected => simp [Frame.erased]
    | refuse f he => rcases he with rfl | rfl | rfl <;> simp [Frame.inserts] at hf
    | _ => simp [Frame.inserts] at hf
  | _ => simp [Frame.inserts] at hf

/-- A step that inserts nothing only takes its session out of the registries. -/
theorem FrameStep.unregister {this : S} {t : T} {σ σ' : System T S} {f : Frame T} {c : Choice T S}
    {new : List (Frame T)} (h : FrameStep this t σ f c σ' new) (hf : f.inserts = false) :
    (this ∉ σ.mSessions → this ∉ σ'.mSessions) ∧ (this ∉ σ._sessions → this ∉ σ'._sessions) ∧
      (f = .disconnect .releaseSession → this ∉ σ'.mSessions) ∧
      ∀ g ∈ new, g.erased = true → f.erased = true ∨ this ∉ σ'._sessions := by
  cases h with
  | send f c s' new h => cases h <;> simp [System.set, Frame.erased]
  | recv f c s' new h => cases h <;> simp [System.set, Frame.erased]
  | connect f c σ' new h =>
    cases h with
    | addSession | onConnected => simp [Frame.inserts] at hf
    | assign pool b =>
      refine ⟨id, id, by simp, ?_⟩
      exact forall_releaseFrames _ _ _ (by simp [Frame.erased]) (by simp [Frame.erased])
    | tryDequeue pool | useCount pool => cases pool <;> simp [System.setPool, Frame.erased]
    | _ => simp [System.set, Frame.erased]
  | disconnect f c σ' new h =>
    cases h <;> simp +contextual [System.set, Frame.erased]
  | destroy f c σ' new h =>
    cases h with
    | recvBuffer | sendBuffer =>
      refine ⟨id, id, by simp, ?_⟩
      exact forall_releaseFrames _ _ _ (by simp [Frame.erased]) (by simp [Frame.erased])
    | enqueue pool | useCount pool => cases pool <;> simp [System.setPool, Frame.erased]
    | _ => simp [System.set, Frame.erased]

section

variable [Fintype T] {recvPool sendPool : RegisteredBufferPool T}
  {ok : SystemConf T S → Action T (Choice T S) → Prop} {s : SystemConf T S}

theorem connectedToken_le {m : Machine T (System T S) (SessionFrame T S) (Choice T S)}
    [Specified m] (h : m.Reach ok (start recvPool sendPool) s) (x : S) :
    connectedToken.total x s ≤ 1 :=
  connectedToken_decreases.le x 1
    (by simp [connectedToken, Session.construct, Session.unconnected]) h

theorem departure_reach (hok : ∀ s a, ok s a → disconnectsConnected s a = true)
    (h : machine.Reach ok (start recvPool sendPool) s) (x : S) : departure.Holds x s := by
  refine Assertion.reach h ?init ?step ?beside ?enter ?env
  case init => simp [departure, Session.construct, Ordered]
  case step =>
    intro s t c f fs mem new _ hallowed hf hstep hs htop
    refine hstep.departure (fun cause he hc => ?_) hs htop
    subst he
    have hconnected := hok _ _ hallowed
    simpa [disconnectsConnected, hf, hc] using hconnected
  case beside =>
    intro s t c f fs mem new u g _ _ _ hstep _ _ hg hpos
    exact hstep.events.mono (hg hpos)
  case enter =>
    intro s t c f mem _ _ hstep hs
    simp only [departure] at hs ⊢
    cases hstep with
    | disconnected this hpos =>
      simp only [System.set_session_self]
      exact ⟨⟨fun _ => hs.1 hpos, hs.2⟩, fun _ => hs.1 hpos, fun u g _ hg => hg⟩
    | send | disconnect | connect =>
      exact ⟨hs, by simp [Frame.departing, DisconnectFrame.effective], fun u g _ hg => hg⟩
    | _ =>
      simp only [System.set_session_self]
      exact ⟨hs, by simp [Frame.departing], fun u g _ hg => hg⟩
  case env =>
    intro s mem hstep hs
    obtain ⟨_, _, he, _⟩ := hstep.session x
    rw [he]
    exact ⟨hs, fun u g _ hg => hg⟩

/-- Who has the right to return from `OnConnected` comes before its return. -/
theorem not_returned_of_token {m : Machine T (System T S) (SessionFrame T S) (Choice T S)}
    [Specified m] (h : m.Reach ok (start recvPool sendPool) s) {x : S} {t : T} {f : Frame T}
    (hf : (x, f) ∈ s.frames t) (hone : f.connectedToken = 1) :
    .connectedReturned ∉ (s.mem.session x).events := by
  have hle := (connectedToken.le_total hf).trans (connectedToken_le h x)
  simp only [connectedToken, hone] at hle
  rw [← List.count_eq_zero]
  omega

omit [DecidableEq T] [Fintype T] in
theorem Frame.connectedToken_of_inserts {f : Frame T} (h : f.inserts = true) :
    f.connectedToken = 1 := by
  cases f with
  | connect f => cases f <;> first | rfl | simp [Frame.inserts] at h
  | _ => simp [Frame.inserts] at h

/-- The session is taken out of `_sessions` by `OnDisconnected`, and is in no registry once
`ProcessDisconnect` has returned. -/
structure Unregistered (x : S) (s : SystemConf T S) : Prop where
  erased : ∀ u f, (x, f) ∈ s.frames u → f.erased = true → x ∉ s.mem._sessions
  returned : .disconnectReturned ∈ (s.mem.session x).events →
    x ∉ s.mem.mSessions ∧ x ∉ s.mem._sessions

theorem unregistered_reach (hok : ∀ s a, ok s a → disconnectsConnected s a = true)
    (h : machine.Reach ok (start recvPool sendPool) s) (x : S) : Unregistered x s := by
  apply h.invariant (Unregistered x) ⟨by simp [start], by simp [start, System.start, Session.construct]⟩
  intro s a s' hr hs _ hnext
  obtain ⟨hsession, hframe⟩ := departure_reach hok hr x
  rcases next_view x hnext with hmove | hother
  · cases hmove with
    | step t c f fs new mem hf hstep =>
      have hmem : (x, f) ∈ s.frames t := hf ▸ List.mem_cons_self
      have hreturned := hstep.events.disconnectReturned_mem
      by_cases hinserts : f.inserts = true
      · have hnot := not_returned_of_token hr hmem (Frame.connectedToken_of_inserts hinserts)
        constructor
        · intro u g hg he
          rcases mem_update _ hg with ⟨_, hg⟩ | hg
          · obtain ⟨g', hg', heq⟩ := List.mem_map.mp hg
            cases heq
            simp [hstep.not_erased_of_inserts hinserts g hg'] at he
          · exact absurd (hframe u g (hg.mem hf) (Frame.departing_of_erased he)) hnot
        · intro hd
          rcases hreturned hd with hd | rfl
          · exact absurd (hsession.2.1 hd) hnot
          · simp [Frame.inserts] at hinserts
      · obtain ⟨hm, hc, hrelease, hnew⟩ := hstep.unregister (by simpa using hinserts)
        constructor
        · intro u g hg he
          rcases mem_update _ hg with ⟨_, hg⟩ | hg
          · obtain ⟨g', hg', heq⟩ := List.mem_map.mp hg
            cases heq
            exact (hnew g hg' he).elim (fun hf => hc (hs.erased t f hmem hf)) id
          · exact hc (hs.erased u g (hg.mem hf) he)
        · intro hd
          rcases hreturned hd with hd | rfl
          · exact ⟨hm (hs.returned hd).1, hc (hs.returned hd).2⟩
          · exact ⟨hrelease rfl, hc (hs.erased t _ hmem rfl)⟩
    | enter t c f mem hstep =>
      obtain ⟨hm, hc⟩ := hstep.registries
      have hevents : (mem.session x).events = (s.mem.session x).events := by
        cases hstep <;> simp
      have hfresh : f.erased = false := by cases hstep <;> rfl
      constructor
      · intro u g hg he
        rw [hc]
        rcases mem_push hg with hg | hg
        · obtain rfl := (Prod.mk.inj hg).2
          simp [hfresh] at he
        · exact hs.erased u g hg he
      · intro hd
        rw [hm, hc]
        exact hs.returned (hevents ▸ hd)
    | env c mem hstep =>
      obtain ⟨_, _, he, _⟩ := hstep.session x
      obtain ⟨hm, hc⟩ : mem.mSessions = s.mem.mSessions ∧ mem._sessions = s.mem._sessions := by
        cases hstep <;> exact ⟨rfl, rfl⟩
      constructor
      · intro u f hf hx
        rw [hc]
        exact hs.erased u f hf hx
      · intro hd
        rw [hm, hc]
        exact hs.returned (by simpa only [he] using hd)
  · constructor
    · intro u f hf he
      rw [hother._sessions]
      exact hs.erased u f (hother.frames u f hf) he
    · intro hd
      rw [hother.mSessions, hother._sessions]
      exact hs.returned (hother.session ▸ hd)

/-- A session that was disconnected leaves nothing behind. -/
structure LeavesNothing (x : S) (s : SystemConf T S) : Prop where
  ordered : Ordered (s.mem.session x).events
  gone : .connectReturned ∈ (s.mem.session x).events →
    .disconnectReturned ∈ (s.mem.session x).events →
    x ∉ s.mem.mSessions ∧ x ∉ s.mem._sessions

/-- After an early `Disconnect` a worker that is free can run `OnDisconnected` first. -/
theorem disconnected_first {s' : SystemConf T S} {t u : T} {c : Choice T S} {x : S} {cause : Cause}
    {fs : List (SessionFrame T S)} (hf : s.frames t = (x, .disconnect (.disconnect cause)) :: fs)
    (hconn : (s.mem.session x).mIsConnected = true)
    (hearly : .connectedReturned ∉ (s.mem.session x).events) (hu : s.frames u = [])
    (hnext : machine.next s (.step t c) = some s') :
    ∃ s'', machine.Reach (fun _ _ => True) s' s'' ∧ ¬LeavesNothing x s'' := by
  have htu : u ≠ t := by
    rintro rfl
    simp [hu] at hf
  obtain ⟨mem, new, hstep, rfl⟩ := next_top hf hnext
  cases hstep with
  | disconnect f c σ' new hstep =>
    cases hstep with
    | again cause hc => simp [hconn] at hc
    | disconnect cause _ =>
      have hrun := Machine.reach_of_run machine
        ⟨s.mem.set x { s.mem.session x with mIsConnected := false },
          Function.update s.frames t ([(x, .disconnect .register)] ++ fs)⟩
        [.step t .go, .step t (.result true), .enter u (.disconnected x), .step u .go, .step u .go]
        (by simp [Machine.run, Machine.next, machine, step, disconnectStep, enter, htu, hu]; rfl)
      refine ⟨_, hrun, fun h => hearly ?_⟩
      exact h.ordered (s.mem.session x).events [] (by simp [Session.record])

/-- A run in which no session is disconnected with effect before its `OnConnected` has returned
leaves nothing behind; a `Disconnect` that comes earlier can leave its session behind. -/
theorem leaves_nothing (recvPool sendPool : RegisteredBufferPool T) :
    (∀ (s : SystemConf T S) (x : S),
      machine.Reach (fun s a => disconnectsConnected s a = true) (start recvPool sendPool) s →
      LeavesNothing x s) ∧
    ∀ (s s' : SystemConf T S) (a : Action T (Choice T S)),
      machine.next s a = some s' → disconnectsConnected s a = false →
      (∃ u, s.frames u = []) →
      ∃ x s'', machine.Reach (fun _ _ => True) s' s'' ∧ ¬LeavesNothing x s'' := by
  constructor
  · intro s x h
    have hdeparture := departure_reach (fun _ _ hok => hok) h x
    have hunregistered := unregistered_reach (fun _ _ hok => hok) h x
    exact ⟨hdeparture.1.2.2, fun _ => hunregistered.returned⟩
  · rintro s s' a hnext hbad ⟨u, hu⟩
    cases a with
    | step t c =>
      simp only [disconnectsConnected] at hbad
      split at hbad
      · next x cause fs hs =>
        simp only [Bool.or_eq_false_iff, Bool.not_eq_false', decide_eq_false_iff_not] at hbad
        exact ⟨x, disconnected_first hs hbad.1 hbad.2 hu hnext⟩
      · simp at hbad
    | _ => simp [disconnectsConnected] at hbad

end

/-- Thread `t` dispatches the completion of a `DisconnectEx`. -/
def disconnectedRun {T S : Type} (t : T) (this : S) : List (Action T (Choice T S)) :=
  [.enter t (.disconnected this), .step t .go, .step t .go, .step t .go, .step t .go, .step t .go]

/-- `CreateRIORQ` fails in thread `t`, and thread `u` runs all of `ProcessDisconnect` before `t`
goes on to `SetSessionID`. -/
def requestQueueFails {T S : Type} (t u : T) (this : S) : List (Action T (Choice T S)) :=
  (connectRun t t this).take 12 ++
    [.step t (.result false), .step t .go, .step t .go, .step t (.result true)] ++
    disconnectedRun u this ++
    [.step t .go, .step t .go, .step t .go, .step t .go, .step t .go]

theorem session_left_behind : ¬∀ s : SystemConf (Fin 2) Unit,
    machine.Reach (fun _ _ => True) smallStart s → LeavesNothing () s := by
  intro claim
  have hr := Machine.reach_final machine smallStart (requestQueueFails 0 1 ()) (by decide)
  have h := (claim _ hr).gone (by decide) (by decide)
  exact absurd h (by decide)

theorem leaves_nothing_afterConnect : ∃ s : SystemConf (Fin 2) Unit,
    .disconnectReturned ∈ (s.mem.session ()).events ∧ LeavesNothing () s := by
  have hr := Machine.reach_finalChecked machine disconnectsConnected smallStart
    (connectRun 0 0 () ++ [.enter 1 (.callDisconnect ()), .step 1 .go, .step 1 .go,
      .step 1 (.result true)] ++ disconnectedRun 0 ()) (by decide)
  exact ⟨_, by decide, (leaves_nothing _ _).1 _ () hr⟩

end ServerCore.Network
