import ServerCore.Network.Registries

namespace ServerCore.Network

open Framework

variable {T S : Type} [DecidableEq T] [DecidableEq S]

/-- What `Service::AddSession`, `OnDisconnected` and `Service::ReleaseSession` log. -/
inductive Registration where
  | added
  | disconnected
  | released
  deriving DecidableEq

def Frame.registration : Frame T → Option Registration
  | .connect .addSession => some .added
  | .disconnect .processDisconnect => some .disconnected
  | .disconnect .releaseSession => some .released
  | _ => none

/-- The log of the registry. -/
def registrations (s : SystemConf T S) : Action T (Choice T S) → List (S × Registration)
  | .step t _ =>
      match s.frames t with
      | [] => []
      | f :: _ => f.2.registration.toList.map fun k => (f.1, k)
  | _ => []

/-- A `Disconnect` that has an effect finds its session in `mSessions`. -/
def disconnectsAdded (s : SystemConf T S) : Action T (Choice T S) → Bool
  | .step t _ =>
      match s.frames t with
      | (x, .disconnect (.disconnect _)) :: _ =>
          !(s.mem.session x).mIsConnected || decide (x ∈ s.mem.mSessions)
      | _ => true
  | _ => true

/-- The registry counts right. -/
structure CountsRight (s : SystemConf T S) (log : List (S × Registration)) : Prop where
  once : ∀ x k, log.count (x, k) ≤ 1
  addedFirst : ∀ x, Machine.Precedes (x, .added) (x, .released) log
  count : s.mem.mSessionCount = s.mem.mSessions.card

/-- Frames that can still add their session, or disconnect it with effect, or release it. -/
def Frame.before : Registration → Frame T → ℕ
  | .added, .connect .addSession => 1
  | .disconnected, .disconnect .onDisconnected | .disconnected, .disconnect .leaveRoom
  | .disconnected, .disconnect .releaseSession => 0
  | .disconnected, .disconnect f | .released, .disconnect f => f.effective
  | _, .connect f => f.opening
  | _, _ => 0

def Session.before : Registration → Session T S → ℕ
  | .added, s => s.unconnected
  | _, s => s.unconnected + s.mIsConnected.toNat + s.disconnecting

/-- The right to do once what the registry logs. -/
def onceToken (k : Registration) : Potential T S := ⟨Session.before k, Frame.before k⟩

omit [DecidableEq T] in
@[simp] theorem before_destroy (k : Registration) (f : DestroyFrame) :
    Frame.before k (.destroy f : Frame T) = 0 := by
  cases k <;> rfl

omit [DecidableEq T] in
@[simp] theorem before_afterAssign (k : Registration) (p : Pool) (b : Option NetworkBuffer) :
    Frame.before k (.connect (afterAssign p b) : Frame T) = 0 := by
  cases p <;> cases b <;> cases k <;> rfl

/-- A step that is logged pays with the token. -/
theorem FrameStep.pays {this : S} {t : T} {σ σ' : System T S} {f : Frame T} {c : Choice T S}
    {new : List (Frame T)} (h : FrameStep this t σ f c σ' new) (k : Registration) :
    (σ'.session this).before k + stackWeight (Frame.before k) new +
        f.registration.toList.count k ≤ (σ.session this).before k + f.before k := by
  cases h with
  | send f c s' new h =>
    cases h <;> cases k <;> simp [Session.before, Frame.before, Frame.registration,
      Session.unconnected, DisconnectFrame.effective]
  | recv f c s' new h =>
    cases h <;> cases k <;> simp [Session.before, Frame.before, Frame.registration,
      Session.unconnected, DisconnectFrame.effective]
  | connect f c σ' new h =>
    cases h with
    | refuse f hf =>
      rcases hf with rfl | rfl | rfl <;> cases k <;> simp [Frame.registration]
    | bind hb =>
      cases k <;> simp +arith [Session.before, Frame.before, Frame.registration,
        Session.unconnected, ConnectFrame.opening, hb]
    | processConnect =>
      cases hc : (σ.session this).mIsConnected <;> cases k <;>
        simp +arith [Session.before, Frame.before, Frame.registration, Session.unconnected,
          ConnectFrame.opening, hc]
    | assign p b =>
      cases k <;> simp [Session.before, Frame.registration, Session.unconnected,
        stackWeight_releaseFrames (Frame.before _) (before_destroy _)]
    | _ =>
      cases k <;> simp +arith [Session.before, Frame.before, Frame.registration,
        Session.unconnected, ConnectFrame.opening, Session.record, DisconnectFrame.effective]
  | disconnect f c σ' new h =>
    cases h with
    | disconnect cause hc =>
      cases k <;> simp +arith [Session.before, Frame.before, Frame.registration,
        Session.unconnected, DisconnectFrame.effective, hc]
    | again cause hc =>
      cases k <;> simp [Session.before, Frame.before, Frame.registration, Session.unconnected, hc]
    | _ =>
      cases k <;> simp +arith [Session.before, Frame.before, Frame.registration,
        Session.unconnected, DisconnectFrame.effective, Session.record]
  | destroy f c σ' new h =>
    cases h <;> cases k <;>
      simp [Session.before, Frame.registration, Session.unconnected,
        stackWeight_releaseFrames (Frame.before _) (before_destroy _)]

omit [DecidableEq T] in
theorem EnterStep.pays {this : S} {σ σ' : System T S} {frames : T → List (SessionFrame T S)}
    {c : Choice T S} {f : Frame T} (h : EnterStep σ frames c σ' this f) (k : Registration) :
    (σ'.session this).before k + f.before k ≤ (σ.session this).before k := by
  cases h with
  | accepted this ha =>
    cases k <;> simp +arith [Session.before, Frame.before, Session.unconnected,
      ConnectFrame.opening, ha]
  | connected this hc =>
    cases k <;> simp [Session.before, Frame.before, Session.unconnected, ConnectFrame.opening] <;>
      omega
  | disconnected this hd =>
    cases k <;> simp [Session.before, Frame.before, Session.unconnected,
      DisconnectFrame.effective] <;> omega
  | _ =>
    cases k <;> simp [Session.before, Frame.before, Session.unconnected, ConnectFrame.opening,
      DisconnectFrame.effective]

omit [DecidableEq T] in
theorem EnvStep.pays {σ σ' : System T S} (h : EnvStep σ σ') (x : S) (k : Registration) :
    (σ'.session x).before k ≤ (σ.session x).before k := by
  obtain ⟨_, _, he, hle, _⟩ := h.session x
  simp only [Session.unconnected, he] at hle
  cases k <;> simp only [Session.before, Session.unconnected, he] <;> omega

omit [DecidableEq T] in
theorem count_registered (x this : S) (ks : List Registration) (k : Registration) :
    (ks.map fun k => (this, k)).count (x, k) = if this = x then ks.count k else 0 := by
  by_cases hx : this = x
  · subst hx
    rw [if_pos rfl]
    exact List.count_map_of_injective ks _ (fun _ _ h => (Prod.mk.inj h).2) k
  · rw [if_neg hx, List.count_eq_zero]
    intro hmem
    obtain ⟨_, _, he⟩ := List.mem_map.mp hmem
    exact hx (Prod.mk.inj he).1

omit [DecidableEq T] [DecidableEq S] in
theorem registrations_step {s : SystemConf T S} {t : T} {this : S} {f : Frame T}
    {fs : List (SessionFrame T S)} (hf : s.frames t = (this, f) :: fs) (c : Choice T S) :
    registrations s (.step t c) = f.registration.toList.map fun k => (this, k) := by
  simp only [registrations, hf]

section

variable [Fintype T] {recvPool sendPool : RegisteredBufferPool T}
  {ok : SystemConf T S → Action T (Choice T S) → Prop} {s : SystemConf T S}
  {log : List (S × Registration)}

/-- The right to do something to a session is spent when it is logged. -/
theorem onceToken_le (h : machine.Logged ok registrations (start recvPool sendPool) s log)
    (x : S) (k : Registration) : (onceToken k).total x s + log.count (x, k) ≤ 1 := by
  refine h.invariant (fun s log => (onceToken k).total x s + log.count (x, k) ≤ 1) ?_ ?_
  · cases k <;> simp [Potential.total, onceToken, count, start, System.start, Session.before,
      Session.construct, Session.unconnected]
  · intro s a s' log _ hs _ hnext
    obtain ⟨this, hmove, hother⟩ := next_move hnext
    simp only [Potential.total, onceToken, List.count_append] at hs ⊢
    cases hmove with
    | step t c f fs new mem hf hstep =>
      rw [registrations_step hf, count_registered]
      by_cases hx : this = x
      · subst hx
        have hw := count_step this hf mem new (Frame.before k)
        have hpays := hstep.pays k
        simp only [if_true] at hw ⊢
        omega
      · have helse := hother x (Ne.symm hx)
        have hsession : mem.session x = s.mem.session x := helse.session
        simp only [hsession, helse.count, if_neg hx]
        omega
    | enter t c f mem hstep =>
      by_cases hx : this = x
      · subst hx
        have hw := count_enter this this s t f mem (Frame.before k)
        have hpays := hstep.pays k
        simp only [if_true] at hw
        simp only [registrations, List.count_nil]
        omega
      · have helse := hother x (Ne.symm hx)
        have hsession : mem.session x = s.mem.session x := helse.session
        simp only [hsession, helse.count, registrations, List.count_nil]
        omega
    | env c mem hstep =>
      have hpays := hstep.pays x k
      have hw : count x (Frame.before k) ⟨mem, s.frames⟩ = count x (Frame.before k) s := rfl
      simp only [registrations, List.count_nil]
      omega

end

/-- What a step does to the registry is what is logged of it. -/
theorem FrameStep.registration {this : S} {t : T} {σ σ' : System T S} {f : Frame T} {c : Choice T S}
    {new : List (Frame T)} (h : FrameStep this t σ f c σ' new) :
    f.registration = some .added ∧ σ'.mSessions = insert this σ.mSessions ∧
        σ'.mSessionCount = σ.mSessionCount + 1 ∨
      f.registration = some .released ∧ σ'.mSessions = σ.mSessions.erase this ∧
        σ'.mSessionCount = σ.mSessionCount - 1 ∨
      (f.registration = some .disconnected ∨ f.registration = none) ∧
        σ'.mSessions = σ.mSessions ∧ σ'.mSessionCount = σ.mSessionCount := by
  cases h with
  | send f c s' new h => exact .inr (.inr ⟨.inr rfl, rfl, rfl⟩)
  | recv f c s' new h => exact .inr (.inr ⟨.inr rfl, rfl, rfl⟩)
  | connect f c σ' new h =>
    cases h with
    | addSession => exact .inl ⟨rfl, rfl, rfl⟩
    | refuse f hf => rcases hf with rfl | rfl | rfl <;> exact .inr (.inr ⟨.inr rfl, rfl, rfl⟩)
    | tryDequeue p | useCount p => cases p <;> exact .inr (.inr ⟨.inr rfl, rfl, rfl⟩)
    | _ => exact .inr (.inr ⟨.inr rfl, rfl, rfl⟩)
  | disconnect f c σ' new h =>
    cases h with
    | processDisconnect => exact .inr (.inr ⟨.inl rfl, rfl, rfl⟩)
    | releaseSession => exact .inr (.inl ⟨rfl, rfl, rfl⟩)
    | _ => exact .inr (.inr ⟨.inr rfl, rfl, rfl⟩)
  | destroy f c σ' new h =>
    cases h with
    | enqueue p | useCount p => cases p <;> exact .inr (.inr ⟨.inr rfl, rfl, rfl⟩)
    | _ => exact .inr (.inr ⟨.inr rfl, rfl, rfl⟩)

/-- A departure goes on, or begins with a `Disconnect` that has an effect. -/
theorem FrameStep.departs {this : S} {t : T} {σ σ' : System T S} {f : Frame T} {c : Choice T S}
    {new : List (Frame T)} (h : FrameStep this t σ f c σ' new) :
    (∀ g ∈ new, 0 < g.departing → 0 < f.departing ∨
        (∃ cause, f = .disconnect (.disconnect cause)) ∧ (σ.session this).mIsConnected = true) ∧
      (0 < (σ'.session this).disconnecting →
        0 < (σ.session this).disconnecting ∨ 0 < f.departing) := by
  cases h with
  | send f c s' new h =>
    cases h <;> simp +contextual [Frame.departing, DisconnectFrame.effective]
  | recv f c s' new h =>
    cases h <;> simp +contextual [Frame.departing, DisconnectFrame.effective]
  | connect f c σ' new h =>
    cases h with
    | assign p b =>
      refine ⟨?_, by simpa using .inl⟩
      exact forall_releaseFrames _ _ _ (by simp [Frame.departing]) (by simp [Frame.departing])
    | _ =>
      simp +contextual [Frame.departing, DisconnectFrame.effective, Session.record]
  | disconnect f c σ' new h =>
    cases h <;>
      simp +contextual [Frame.departing, DisconnectFrame.effective, Session.record, *]
  | destroy f c σ' new h =>
    cases h with
    | recvBuffer | sendBuffer =>
      refine ⟨?_, by simpa using .inl⟩
      exact forall_releaseFrames _ _ _ (by simp [Frame.departing]) (by simp [Frame.departing])
    | _ => simp +contextual [Frame.departing]

omit [DecidableEq T] in
theorem Frame.departing_of_released {f : Frame T} (h : f.registration = some .released) :
    0 < f.departing := by
  cases f with
  | disconnect f => cases f <;> first | exact Nat.one_pos | simp [Frame.registration] at h
  | connect f => cases f <;> simp [Frame.registration] at h
  | _ => simp [Frame.registration] at h

/-- What the log says about session `x` and its departure. -/
structure Registered (x : S) (s : SystemConf T S) (log : List (S × Registration)) : Prop where
  mem : x ∈ s.mem.mSessions ↔ (x, .added) ∈ log ∧ (x, .released) ∉ log
  departing : ∀ u f, (x, f) ∈ s.frames u → 0 < f.departing → (x, .added) ∈ log
  disconnecting : 0 < (s.mem.session x).disconnecting → (x, .added) ∈ log
  ordered : Machine.Precedes (x, .added) (x, .released) log

section

variable [Fintype T] {recvPool sendPool : RegisteredBufferPool T} {s s' : SystemConf T S}
  {a : Action T (Choice T S)} {log : List (S × Registration)}

omit [DecidableEq T] [DecidableEq S] [Fintype T] in
/-- What is logged of another session does not count. -/
theorem Registered.append {x : S} (h : Registered x s log) {es : List (S × Registration)}
    (hes : ∀ e ∈ es, e.1 ≠ x) (hlen : es.length ≤ 1) : Registered x s (log ++ es) := by
  have hnot (k : Registration) : (x, k) ∉ es := fun he => hes _ he rfl
  refine ⟨?_, ?_, ?_, ?_⟩
  · simpa [hnot] using h.mem
  · intro u f hf hd
    exact List.mem_append_left _ (h.departing u f hf hd)
  · intro hd
    exact List.mem_append_left _ (h.disconnecting hd)
  · cases es with
    | nil => simpa using h.ordered
    | cons e es =>
      obtain rfl : es = [] := List.length_eq_zero_iff.mp (by simpa using hlen)
      exact h.ordered.append fun he => absurd (he ▸ List.mem_cons_self) (hnot .released)

omit [DecidableEq T] in
/-- An action elsewhere changes nothing for session `x`. -/
theorem Registered.elsewhere {x : S} (h : Registered x s log) (hother : Elsewhere x s s') :
    Registered x s' log := by
  refine ⟨hother.mSessions.trans h.mem, ?_, ?_, h.ordered⟩
  · intro u f hf hd
    exact h.departing u f (hother.frames u f hf) hd
  · intro hd
    rw [hother.session] at hd
    exact h.disconnecting hd

omit [Fintype T] in
/-- A step of session `x` keeps what the log says about it. -/
theorem Registered.step {x : S} {t : T} {c : Choice T S} {f : Frame T}
    {fs : List (SessionFrame T S)} {new : List (Frame T)} {mem : System T S}
    (h : Registered x s log) (hf : s.frames t = (x, f) :: fs)
    (hok : disconnectsAdded s (.step t c) = true) (hstep : FrameStep x t s.mem f c mem new)
    (hadded : f.registration = some .added → (x, .added) ∉ log) :
    Registered x ⟨mem, Function.update s.frames t ((new.map fun g => (x, g)) ++ fs)⟩
      (log ++ f.registration.toList.map fun k => (x, k)) := by
  have htop : (x, f) ∈ s.frames t := hf ▸ List.mem_cons_self
  obtain ⟨hnew, hdisconnecting⟩ := hstep.departs
  have hdeparting : ∀ u g, (x, g) ∈ Function.update s.frames t ((new.map fun g => (x, g)) ++ fs) u →
      0 < g.departing → (x, .added) ∈ log := by
    intro u g hg hd
    rcases mem_update _ hg with ⟨_, hg⟩ | hg
    · obtain ⟨g', hg', he⟩ := List.mem_map.mp hg
      cases he
      rcases hnew g hg' hd with hd | ⟨⟨cause, rfl⟩, hconnected⟩
      · exact h.departing t f htop hd
      · have hmem : x ∈ s.mem.mSessions := by simpa [disconnectsAdded, hf, hconnected] using hok
        exact (h.mem.mp hmem).1
    · exact h.departing u g (hg.mem hf) hd
  have hpending (hd : 0 < (mem.session x).disconnecting) : (x, .added) ∈ log := by
    rcases hdisconnecting hd with hd | hd
    · exact h.disconnecting hd
    · exact h.departing t f htop hd
  rcases hstep.registration with ⟨hr, hm, _⟩ | ⟨hr, hm, _⟩ | ⟨hr, hm, _⟩
  · have hfresh := hadded hr
    have hkept : (x, .released) ∉ log := fun he => hfresh (h.ordered.mem he)
    simp only [hr, Option.toList_some, List.map_cons, List.map_nil]
    refine ⟨by simp [hm, hkept], ?_, ?_, h.ordered.append (by simp)⟩
    · exact fun u g hg hd => List.mem_append_left _ (hdeparting u g hg hd)
    · exact fun hd => List.mem_append_left _ (hpending hd)
  · have hbefore := h.departing t f htop (Frame.departing_of_released hr)
    simp only [hr, Option.toList_some, List.map_cons, List.map_nil]
    refine ⟨by simp [hm], ?_, ?_, h.ordered.append fun _ => hbefore⟩
    · exact fun u g hg hd => List.mem_append_left _ (hdeparting u g hg hd)
    · exact fun hd => List.mem_append_left _ (hpending hd)
  · have hlog : Registered x ⟨mem, Function.update s.frames t ((new.map fun g => (x, g)) ++ fs)⟩ log :=
      ⟨by rw [hm]; exact h.mem, hdeparting, hpending, h.ordered⟩
    rcases hr with hr | hr
    · simp only [hr, Option.toList_some, List.map_cons, List.map_nil]
      refine ⟨by simpa using hlog.mem, ?_, ?_, hlog.ordered.append (by simp)⟩
      · exact fun u g hg hd => List.mem_append_left _ (hdeparting u g hg hd)
      · exact fun hd => List.mem_append_left _ (hpending hd)
    · simpa [hr] using hlog

omit [Fintype T] in
/-- A call into session `x` only departs if `DisconnectEx` had been accepted. -/
theorem Registered.enter {x : S} {t : T} {c : Choice T S} {f : Frame T} {mem : System T S}
    (h : Registered x s log) (hstep : EnterStep s.mem s.frames c mem x f) :
    Registered x ⟨mem, Function.update s.frames t ((x, f) :: s.frames t)⟩ log := by
  have hfresh (hd : 0 < f.departing) : (x, .added) ∈ log := by
    cases hstep with
    | disconnected this hpos => exact h.disconnecting hpos
    | _ => simp [Frame.departing, DisconnectFrame.effective] at hd
  refine ⟨by rw [hstep.registries.1]; exact h.mem, ?_, ?_, h.ordered⟩
  · intro u g hg hd
    rcases mem_push hg with hg | hg
    · exact hfresh ((Prod.mk.inj hg).2 ▸ hd)
    · exact h.departing u g hg hd
  · intro hd
    apply h.disconnecting
    cases hstep with
    | disconnected this hpos => exact hpos
    | _ => simpa using hd

omit [DecidableEq T] [Fintype T] in
theorem Registered.env {x : S} {mem : System T S} (h : Registered x s log)
    (hstep : EnvStep s.mem mem) : Registered x ⟨mem, s.frames⟩ log := by
  obtain ⟨_, _, he, _⟩ := hstep.session x
  have hm : mem.mSessions = s.mem.mSessions := by cases hstep <;> rfl
  refine ⟨by rw [hm]; exact h.mem, h.departing, fun hd => h.disconnecting ?_, h.ordered⟩
  simpa only [he] using hd

/-- Who adds a session is the first to do so. -/
theorem added_once {ok : SystemConf T S → Action T (Choice T S) → Prop} {x : S} {t : T} {f : Frame T}
    (h : machine.Logged ok registrations (start recvPool sendPool) s log) (hf : (x, f) ∈ s.frames t)
    {k : Registration} (hr : f.registration = some k) : (x, k) ∉ log := by
  have hone : 1 ≤ f.before k := by
    cases f with
    | connect f =>
      cases f <;> simp only [Frame.registration, reduceCtorEq, Option.some.injEq] at hr
      subst hr
      exact le_rfl
    | disconnect f =>
      cases f <;> simp only [Frame.registration, reduceCtorEq, Option.some.injEq] at hr <;>
        subst hr <;> exact le_rfl
    | _ => simp [Frame.registration] at hr
  have hle := onceToken_le h x k
  have hshare := (onceToken k).le_total hf
  have hframe : (onceToken k : Potential T S).frame f = f.before k := rfl
  rw [← List.count_eq_zero]
  omega

theorem registered_reach
    (h : machine.Logged (fun s a => disconnectsAdded s a = true) registrations
      (start recvPool sendPool) s log) :
    (∀ x, Registered x s log) ∧ s.mem.mSessionCount = s.mem.mSessions.card := by
  refine h.invariant
    (fun s log => (∀ x, Registered x s log) ∧ s.mem.mSessionCount = s.mem.mSessions.card) ?_ ?_
  · refine ⟨fun x => ⟨by simp [start, System.start], by simp [start], ?_, ?_⟩, rfl⟩
    · simp [start, System.start, Session.construct]
    · simp [Machine.Precedes]
  · intro s a s' log hlog hinv hok hnext
    obtain ⟨hs, hcount⟩ := hinv
    obtain ⟨this, hmove, hother⟩ := next_move hnext
    cases hmove with
    | step t c f fs new mem hf hstep =>
      have hadded := fun k => added_once (k := k) hlog (hf ▸ List.mem_cons_self (l := fs))
      constructor
      · intro x
        rw [registrations_step hf]
        by_cases hx : x = this
        · subst hx
          exact (hs x).step hf hok hstep (hadded .added)
        · refine ((hs x).elsewhere (hother x hx)).append ?_ ?_
          · intro e he
            obtain ⟨k, _, rfl⟩ := List.mem_map.mp he
            exact Ne.symm hx
          · cases f.registration <;> simp
      · show mem.mSessionCount = mem.mSessions.card
        rcases hstep.registration with ⟨hr, hm, hc⟩ | ⟨hr, hm, hc⟩ | ⟨_, hm, hc⟩
        · have hnot : this ∉ s.mem.mSessions := fun hmem =>
            hadded .added hr ((hs this).mem.mp hmem).1
          rw [hc, hm, Finset.card_insert_of_notMem hnot, hcount]
          rfl
        · have hin : this ∈ s.mem.mSessions := (hs this).mem.mpr
            ⟨(hs this).departing t f (hf ▸ List.mem_cons_self) (Frame.departing_of_released hr),
              hadded .released hr⟩
          have hpos : 0 < s.mem.mSessions.card := Finset.card_pos.mpr ⟨this, hin⟩
          rw [hc, hm, Finset.card_erase_of_mem hin, hcount]
          omega
        · rw [hc, hm, hcount]
    | enter t c f mem hstep =>
      constructor
      · intro x
        simp only [registrations, List.append_nil]
        by_cases hx : x = this
        · subst hx
          exact (hs x).enter hstep
        · exact (hs x).elsewhere (hother x hx)
      · have hc : mem.mSessionCount = s.mem.mSessionCount := by cases hstep <;> rfl
        show mem.mSessionCount = mem.mSessions.card
        rw [hc, hstep.registries.1, hcount]
    | env c mem hstep =>
      constructor
      · intro x
        simp only [registrations, List.append_nil]
        exact (hs x).env hstep
      · have hc : mem.mSessionCount = s.mem.mSessionCount ∧ mem.mSessions = s.mem.mSessions := by
          cases hstep <;> exact ⟨rfl, rfl⟩
        show mem.mSessionCount = mem.mSessions.card
        rw [hc.1, hc.2, hcount]

/-- In a run in which every `Disconnect` with an effect finds its session in the registry, sessions
are added and released once, in that order, and the count is right. -/
theorem counts_right
    (h : machine.Logged (fun s a => disconnectsAdded s a = true) registrations
      (start recvPool sendPool) s log) : CountsRight s log := by
  obtain ⟨hregistered, hcount⟩ := registered_reach h
  refine ⟨?_, fun x => (hregistered x).ordered, hcount⟩
  intro x k
  have hle := onceToken_le h x k
  omega

end

/-- Thread `u` has called `Connect`; in thread `t` the `ProcessConnect` has set `mIsConnected` when
`u` disconnects the session and runs `ProcessDisconnect`, before `t` goes on to `AddSession`. -/
def releasedFirstRun {T S : Type} (t u : T) (this : S) : List (Action T (Choice T S)) :=
  [.enter u (.callConnect this), .step u .go, .step u (.result true), .step u .go,
    .step u (.result true), .enter t (.connected this), .step t .go, .step t .go,
    .enter u (.callDisconnect this), .step u .go, .step u .go, .step u (.result true)] ++
    disconnectedRun u this ++ [.step t .go]

theorem released_first : ¬∀ (s : SystemConf (Fin 2) Unit) (log : List (Unit × Registration)),
    machine.Logged (fun _ _ => True) registrations smallStart s log → CountsRight s log := by
  intro claim
  have hlogged := Machine.logged_finalChecked machine (fun _ _ => true) registrations smallStart
    (releasedFirstRun 0 1 ()) (by decide)
  have hcount := (claim _ _ (hlogged.mono fun _ _ _ => trivial)).count
  exact absurd hcount (by decide)

theorem counts_right_twoDisconnects :
    ∃ (s : SystemConf (Fin 2) Unit) (log : List (Unit × Registration)),
      log = [((), .added), ((), .disconnected), ((), .released)] ∧ CountsRight s log := by
  have hlogged := Machine.logged_finalChecked machine disconnectsAdded registrations smallStart
    (connectRun 0 0 () ++ [.enter 1 (.callDisconnect ()), .enter 0 (.callDisconnect ()),
      .step 1 .go, .step 0 .go, .step 1 .go, .step 1 (.result true)] ++ disconnectedRun 0 ())
    (by decide)
  exact ⟨_, _, by decide, counts_right hlogged⟩

end ServerCore.Network
