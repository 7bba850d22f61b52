import ServerCore.Network.Listener
import ServerCore.Network.SendStream

namespace ServerCore.Network

open Framework

variable {T S : Type} [DecidableEq T] [DecidableEq S]

/-- What the system reports about the operations on a session. -/
inductive Report (S : Type) where
  | connect (x : S) (ok : Bool)
  | disconnect (x : S) (ok : Bool)
  | accept (x : S) (ok : Bool)
  /-- The result of `SetUpdateAcceptSocket`. -/
  | updated (x : S) (ok : Bool)
  /-- The result of `getpeername`. -/
  | named (x : S) (ok : Bool)
  deriving DecidableEq

/-- The report that an action brings. -/
def reports (s : ListenerConf T S) : Action T (ListenerChoice T S) → List (Report S)
  | .enter _ (.completed (.connect x) ok) => [.connect x ok]
  | .enter _ (.completed (.disconnect x) ok) => [.disconnect x ok]
  | .enter _ (.completed (.accept a) ok) =>
      (s.mem.accept a).mSession.toList.map fun x => .accept x ok
  | .step t (.session (.result ok)) =>
      match s.frames t with
      | .updateSocket _ x :: _ => [.updated x ok]
      | .getPeerName _ x :: _ => [.named x ok]
      | _ => []
  | _ => []

/-- A `ConnectEx` of the session succeeded, or its `AcceptEx` and after it both further calls. -/
def Succeeded (x : S) (log : List (Report S)) : Prop :=
  .connect x true ∈ log ∨ [.accept x true, .updated x true, .named x true].Sublist log

/-- No `ConnectEx` is reported as failed, and no `AcceptEx` that is followed by successful calls of
`SetUpdateAcceptSocket` and `getpeername`. -/
structure Honest (log : List (Report S)) : Prop where
  connect : ∀ x, .connect x false ∉ log
  accept : ∀ x, ¬[.accept x false, .updated x true, .named x true].Sublist log

/-- Only sessions of successful operations are connected. -/
structure OnlySucceeded (s : ListenerConf T S) (log : List (Report S)) : Prop where
  connected : ∀ x, (s.mem.system.session x).mIsConnected = true → Succeeded x log
  added : ∀ x ∈ s.mem.system.mSessions, Succeeded x log

/-- The frame is on the way to `AddSession`. -/
def Frame.opens : Frame T → Bool
  | .connect .dispatch | .connect .processConnect | .connect .addSession => true
  | _ => false

theorem FrameStep.opens {this : S} {t : T} {σ σ' : System T S} {f : Frame T} {c : Choice T S}
    {new : List (Frame T)} (h : FrameStep this t σ f c σ' new) :
    ∀ g ∈ new, g.opens = true → f.opens = true := by
  cases h with
  | send f c s' new h => cases h <;> simp [Frame.opens]
  | recv f c s' new h => cases h <;> simp [Frame.opens]
  | connect f c σ' new h =>
    cases h with
    | assign pool b =>
      have hafter : (Frame.connect (afterAssign pool b) : Frame T).opens = false := by
        cases pool <;> cases b <;> rfl
      exact forall_releaseFrames _ _ _ (by simp [Frame.opens]) (by simp [hafter])
    | _ => simp [Frame.opens]
  | disconnect f c σ' new h => cases h <;> simp [Frame.opens]
  | destroy f c σ' new h =>
    cases h with
    | recvBuffer | sendBuffer =>
      exact forall_releaseFrames _ _ _ (by simp [Frame.opens]) (by simp [Frame.opens])
    | _ => simp [Frame.opens]

theorem FrameStep.added {this x : S} {t : T} {σ σ' : System T S} {f : Frame T} {c : Choice T S}
    {new : List (Frame T)} (h : FrameStep this t σ f c σ' new) (hx : x ∈ σ'.mSessions) :
    x ∈ σ.mSessions ∨ x = this ∧ f.opens = true := by
  by_cases hthis : x = this
  · subst hthis
    cases h with
    | send f c s' new h => exact .inl hx
    | recv f c s' new h => exact .inl hx
    | connect f c σ' new h =>
      cases h with
      | addSession => exact .inr ⟨rfl, rfl⟩
      | tryDequeue pool | useCount pool => cases pool <;> exact .inl hx
      | _ => exact .inl hx
    | disconnect f c σ' new h =>
      cases h with
      | releaseSession => simp at hx
      | _ => exact .inl hx
    | destroy f c σ' new h =>
      cases h with
      | enqueue pool | useCount pool => cases pool <;> exact .inl hx
      | _ => exact .inl hx
  · exact .inl ((h.registries hthis).1.mp hx)

/-- Where the frames come from that a step of the listener leaves. -/
theorem ListenerStep.origin {t : T} {σ σ' : ListenerSystem T S} {f : ListenerFrame T S}
    {c : ListenerChoice T S} {new : List (ListenerFrame T S)} (h : ListenerStep t σ f c σ' new) :
    ∀ g ∈ new, match g with
      | .dispatch _ => False
      | .processAccept a => f = .dispatch a
      | .updateSocket a x => f = .processAccept a ∧ (σ.accept a).mSession = some x
      | .getPeerName a x => f = .updateSocket a x ∧ c = .session (.result true)
      | .session (x, g) => (∃ f', f = .session (x, f') ∧ (g.opens = true → f'.opens = true)) ∨
          ∃ a, f = .getPeerName a x ∧ c = .session (.result true)
      | _ => True := by
  cases h with
  | session x f c system new h =>
    intro g hg
    obtain ⟨g, hnew, rfl⟩ := List.mem_map.mp hg
    exact .inl ⟨f, rfl, h.opens g hnew⟩
  | _ => simp_all

theorem ListenerStep.mSession {t : T} {σ σ' : ListenerSystem T S} {f : ListenerFrame T S}
    {c : ListenerChoice T S} {new : List (ListenerFrame T S)} (h : ListenerStep t σ f c σ' new)
    (a : ℕ) : (σ'.accept a).mSession = (σ.accept a).mSession ∨ f = .registerAccept a := by
  cases h with
  | create b x _ _ =>
    by_cases hb : b = a
    · exact .inr (hb ▸ rfl)
    · exact .inl (by simp [ListenerSystem.setAccept, Ne.symm hb])
  | post b =>
    apply Or.inl
    apply mSession_setAccept
    rfl
  | _ => exact .inl rfl

/-- Only a session on its way to `AddSession` is connected by a step. -/
theorem ListenerStep.connected {t : T} {σ σ' : ListenerSystem T S} {f : ListenerFrame T S}
    {c : ListenerChoice T S} {new : List (ListenerFrame T S)} {x : S}
    (h : ListenerStep t σ f c σ' new) (hx : (σ'.system.session x).mIsConnected = true) :
    (σ.system.session x).mIsConnected = true ∨ ∃ g, f = .session (x, g) ∧ g.opens = true := by
  cases h with
  | session y f c system new h =>
    by_cases hy : x = y
    · subst hy
      by_cases hf : f = .connect .processConnect
      · exact .inr ⟨f, rfl, by rw [hf]; rfl⟩
      · exact .inl (h.connected hf hx)
    · exact .inl ((h.other hy) ▸ hx)
  | create a y _ _ =>
    apply Or.inl
    by_cases hy : x = y
    · subst hy
      simpa using hx
    · simpa [hy, letGo_connected] using hx
  | named a y =>
    apply Or.inl
    by_cases hy : x = y
    · subst hy
      simpa using hx
    · simpa [hy] using hx
  | _ => exact .inl hx

/-- Only a session on its way to `AddSession` is added by a step. -/
theorem ListenerStep.added {t : T} {σ σ' : ListenerSystem T S} {f : ListenerFrame T S}
    {c : ListenerChoice T S} {new : List (ListenerFrame T S)} {x : S}
    (h : ListenerStep t σ f c σ' new) (hx : x ∈ σ'.system.mSessions) :
    x ∈ σ.system.mSessions ∨ ∃ g, f = .session (x, g) ∧ g.opens = true := by
  cases h with
  | session y f c system new h =>
    rcases h.added hx with hx | ⟨rfl, hopens⟩
    · exact .inl hx
    · exact .inr ⟨f, rfl, hopens⟩
  | create a y _ _ => exact .inl (letGo_mSessions σ a ▸ hx)
  | _ => exact .inl hx

omit [DecidableEq T] in
theorem EnterStep.mIsConnected_eq {this : S} {σ σ' : System T S} {frames : T → List (SessionFrame T S)}
    {c : Choice T S} {f : Frame T} (h : EnterStep σ frames c σ' this f) (x : S) :
    (σ'.session x).mIsConnected = (σ.session x).mIsConnected := by
  by_cases hx : x = this
  · subst hx
    cases h <;> simp
  · rw [h.other hx]

omit [DecidableEq T] in
/-- Only a completion enters on the way to `AddSession`. -/
theorem EnterStep.opens {this : S} {σ σ' : System T S} {frames : T → List (SessionFrame T S)}
    {c : Choice T S} {f : Frame T} (h : EnterStep σ frames c σ' this f) (hopens : f.opens = true) :
    c = .accepted this ∨ c = .connected this := by
  cases h <;> simp [Frame.opens] at hopens ⊢

section

variable [Fintype T] {s s' : ListenerConf T S} {log : List (Report S)}
  {act : Action T (ListenerChoice T S)}

/-- What the log says about the contexts that threads work on. -/
structure Traced (s : ListenerConf T S) (log : List (Report S)) : Prop where
  dispatched : ∀ u a x, .dispatch a ∈ s.frames u ∨ .processAccept a ∈ s.frames u →
    (s.mem.accept a).mSession = some x → ∃ ok, .accept x ok ∈ log
  updating : ∀ u a x, .updateSocket a x ∈ s.frames u → ∃ ok, .accept x ok ∈ log
  naming : ∀ u a x, .getPeerName a x ∈ s.frames u →
    ∃ ok, [.accept x ok, .updated x true].Sublist log

omit [DecidableEq T] [DecidableEq S] [Fintype T] in
theorem Traced.mono (h : Traced s log) (more : List (Report S)) : Traced s (log ++ more) := by
  refine ⟨?_, ?_, ?_⟩
  · intro u a x hf hx
    obtain ⟨ok, hok⟩ := h.dispatched u a x hf hx
    exact ⟨ok, List.mem_append_left _ hok⟩
  · intro u a x hf
    obtain ⟨ok, hok⟩ := h.updating u a x hf
    exact ⟨ok, List.mem_append_left _ hok⟩
  · intro u a x hf
    obtain ⟨ok, hok⟩ := h.naming u a x hf
    exact ⟨ok, hok.trans (List.sublist_append_left _ _)⟩

omit [DecidableEq S] in
/-- The top frame is the only one that works on its context. -/
theorem not_other {t u : T} {a : ℕ} {f g : ListenerFrame T S} {fs : List (ListenerFrame T S)}
    (hone : holders a s ≤ 1) (hf : s.frames t = f :: fs) (hg : Other s.frames t fs u g)
    (hholds : f.holds a = 1) : g.holds a = 0 := by
  have hboth := hg.weight hf (ListenerFrame.holds a)
  simp only [holders] at hone
  omega

omit [Fintype T] in
/-- A completion is reported for the session of its context. -/
theorem Traced.enter {t : T} {c : ListenerChoice T S} {f : ListenerFrame T S}
    {mem : ListenerSystem T S} (h : Traced s log)
    (hstep : ListenerEnter s.mem (fun u => sessionFrames (s.frames u)) c mem f) :
    Traced ⟨mem, Function.update s.frames t (f :: s.frames t)⟩
      (log ++ reports s (.enter t c)) := by
  have hmore := h.mono (reports s (.enter t c))
  have hfresh (a : ℕ) (x : S) (hx : (s.mem.accept a).mSession = some x) (hfa : f = .dispatch a) :
      ∃ ok, .accept x ok ∈ log ++ reports s (.enter t c) := by
    cases hstep with
    | accepted b ok hp =>
      obtain rfl := ListenerFrame.dispatch.inj hfa
      exact ⟨ok, List.mem_append_right _ (by simp [reports, hx])⟩
    | _ => simp at hfa
  refine ⟨?_, ?_, ?_⟩
  · intro u a x hg hx
    rw [hstep.mSession] at hx
    rcases hg with hg | hg
    · rcases mem_push hg with hnew | hg
      · exact hfresh a x hx hnew.symm
      · exact hmore.dispatched u a x (.inl hg) hx
    · rcases mem_push hg with rfl | hg
      · cases hstep
      · exact hmore.dispatched u a x (.inr hg) hx
  · intro u a x hg
    rcases mem_push hg with rfl | hg
    · cases hstep
    · exact hmore.updating u a x hg
  · intro u a x hg
    rcases mem_push hg with rfl | hg
    · cases hstep
    · exact hmore.naming u a x hg

/-- A result is reported for the session that the frame works on. -/
theorem Traced.step {t : T} {c : ListenerChoice T S} {f : ListenerFrame T S}
    {fs new : List (ListenerFrame T S)} {mem : ListenerSystem T S} (h : Traced s log)
    (hone : ∀ a, holders a s ≤ 1) (hf : s.frames t = f :: fs)
    (hstep : ListenerStep t s.mem f c mem new) :
    Traced ⟨mem, Function.update s.frames t (new ++ fs)⟩ (log ++ reports s (.step t c)) := by
  have htop : f ∈ s.frames t := hf ▸ List.mem_cons_self
  have horigin := hstep.origin
  have hmore := h.mono (reports s (.step t c))
  have hkept (u : T) (a : ℕ) (x : S) (g : ListenerFrame T S) (hg : Other s.frames t fs u g)
      (hholds : g.holds a = 1) (hx : (mem.accept a).mSession = some x) :
      (s.mem.accept a).mSession = some x := by
    rcases hstep.mSession a with hsame | rfl
    · exact hsame ▸ hx
    · have hnone := not_other (hone a) hf hg (by simp [ListenerFrame.holds])
      omega
  refine ⟨?_, ?_, ?_⟩
  · intro u a x hg hx
    rcases hg with hg | hg
    · rcases mem_update _ hg with ⟨_, hnew⟩ | hother
      · exact absurd (horigin _ hnew) id
      · exact hmore.dispatched u a x (.inl (hother.mem hf))
          (hkept u a x _ hother (by simp [ListenerFrame.holds]) hx)
    · rcases mem_update _ hg with ⟨_, hnew⟩ | hother
      · obtain rfl := horigin _ hnew
        cases hstep with
        | dispatch => exact hmore.dispatched t a x (.inl htop) hx
      · exact hmore.dispatched u a x (.inr (hother.mem hf))
          (hkept u a x _ hother (by simp [ListenerFrame.holds]) hx)
  · intro u a x hg
    rcases mem_update _ hg with ⟨_, hnew⟩ | hother
    · obtain ⟨rfl, hx⟩ := horigin _ hnew
      exact hmore.dispatched t a x (.inr htop) hx
    · exact hmore.updating u a x (hother.mem hf)
  · intro u a x hg
    rcases mem_update _ hg with ⟨_, hnew⟩ | hother
    · obtain ⟨rfl, rfl⟩ := horigin _ hnew
      obtain ⟨ok, hok⟩ := h.updating t a x htop
      refine ⟨ok, ?_⟩
      simp only [reports, hf]
      exact (List.singleton_sublist.mpr hok).append (List.Sublist.refl [Report.updated x true])
    · exact hmore.naming u a x (hother.mem hf)

omit [DecidableEq S] in
theorem Succeeded.mono {x : S} (h : Succeeded x log) (more : List (Report S)) :
    Succeeded x (log ++ more) := by
  rcases h with h | h
  · exact .inl (List.mem_append_left _ h)
  · exact .inr (h.trans (List.sublist_append_left _ _))

omit [DecidableEq S] in
theorem Honest.before {more : List (Report S)} (h : Honest (log ++ more)) : Honest log :=
  ⟨fun x hx => h.connect x (List.mem_append_left _ hx),
    fun x hx => h.accept x (hx.trans (List.sublist_append_left _ _))⟩

/-- Also the frames on the way to `AddSession` are of sessions of successful operations. -/
structure Opened (s : ListenerConf T S) (log : List (Report S)) : Prop
    extends OnlySucceeded s log where
  opening : ∀ u x f, .session (x, f) ∈ s.frames u → f.opens = true → Succeeded x log

omit [DecidableEq T] [DecidableEq S] [Fintype T] in
theorem Opened.mono (h : Opened s log) (more : List (Report S)) : Opened s (log ++ more) :=
  ⟨⟨fun x hx => (h.connected x hx).mono more, fun x hx => (h.added x hx).mono more⟩,
    fun u x f hf hopens => (h.opening u x f hf hopens).mono more⟩

omit [Fintype T] in
theorem Opened.enter {t : T} {c : ListenerChoice T S} {f : ListenerFrame T S}
    {mem : ListenerSystem T S} (h : Opened s log) (hok : Honest (log ++ reports s (.enter t c)))
    (hstep : ListenerEnter s.mem (fun u => sessionFrames (s.frames u)) c mem f) :
    Opened ⟨mem, Function.update s.frames t (f :: s.frames t)⟩
      (log ++ reports s (.enter t c)) := by
  have hmore := h.mono (reports s (.enter t c))
  have hsystem : (∀ x, (mem.system.session x).mIsConnected =
      (s.mem.system.session x).mIsConnected) ∧ mem.system.mSessions = s.mem.system.mSessions := by
    cases hstep with
    | accepted a ok _ => exact ⟨fun x => rfl, rfl⟩
    | call c system y g _ he => exact ⟨he.mIsConnected_eq, he.registries.1⟩
    | connected y ok system z g he => exact ⟨he.mIsConnected_eq, he.registries.1⟩
    | disconnected y ok system z g he => exact ⟨he.mIsConnected_eq, he.registries.1⟩
  refine ⟨⟨fun x hx => hmore.connected x (hsystem.1 x ▸ hx), fun x hx => hmore.added x (hsystem.2 ▸ hx)⟩, ?_⟩
  intro u x g hg hopens
  rcases mem_push hg with rfl | hg
  · cases hstep with
    | call c system y g hdirect he =>
      rcases he.opens hopens with rfl | rfl <;> simp [Choice.direct] at hdirect
    | connected y ok system z g he =>
      obtain rfl : y = x := by simpa using he.opens hopens
      cases ok with
      | false => exact absurd (List.mem_append_right _ (by simp [reports])) (hok.connect y)
      | true => exact .inl (List.mem_append_right _ (by simp [reports]))
    | disconnected y ok system z g he => simpa using he.opens hopens
  · exact hmore.opening u x g hg hopens

omit [Fintype T] in
theorem Opened.step {t : T} {c : ListenerChoice T S} {f : ListenerFrame T S}
    {fs new : List (ListenerFrame T S)} {mem : ListenerSystem T S} (h : Opened s log)
    (htraced : Traced s log) (hok : Honest (log ++ reports s (.step t c)))
    (hf : s.frames t = f :: fs) (hstep : ListenerStep t s.mem f c mem new) :
    Opened ⟨mem, Function.update s.frames t (new ++ fs)⟩ (log ++ reports s (.step t c)) := by
  have hmore := h.mono (reports s (.step t c))
  have htop : f ∈ s.frames t := hf ▸ List.mem_cons_self
  refine ⟨⟨?_, ?_⟩, ?_⟩
  · intro x hx
    rcases hstep.connected hx with hx | ⟨g, rfl, hopens⟩
    · exact hmore.connected x hx
    · exact hmore.opening t x g htop hopens
  · intro x hx
    rcases hstep.added hx with hx | ⟨g, rfl, hopens⟩
    · exact hmore.added x hx
    · exact hmore.opening t x g htop hopens
  · intro u x g hg hopens
    rcases mem_update _ hg with ⟨_, hnew⟩ | hother
    · rcases hstep.origin _ hnew with ⟨f', rfl, hkept⟩ | ⟨a, rfl, rfl⟩
      · exact hmore.opening t x f' htop (hkept hopens)
      · obtain ⟨ok, hlog⟩ := htraced.naming t a x htop
        have hall : [.accept x ok, .updated x true, .named x true].Sublist
            (log ++ reports s (.step t (.session (.result true)))) := by
          simp only [reports, hf]
          exact hlog.append (List.Sublist.refl [Report.named x true])
        cases ok with
        | false => exact absurd hall (hok.accept x)
        | true => exact .inr hall
    · exact hmore.opening u x g (hother.mem hf) hopens

/-- In every run whose reports are honest only sessions of successful operations are connected. -/
theorem only_successful_connects (t : T) (recvPool sendPool : RegisteredBufferPool T)
    (maxSessionCount : ℕ)
    (h : listenerMachine.Logged (fun _ _ => True) reports
      (listenerStart t recvPool sendPool maxSessionCount) s log) (hhonest : Honest log) :
    OnlySucceeded s log := by
  suffices hinv : Traced s log ∧ (Honest log → Opened s log) from
    (hinv.2 hhonest).toOnlySucceeded
  refine h.invariant (fun s log => Traced s log ∧ (Honest log → Opened s log)) ?_ ?_
  · refine ⟨⟨?_, ?_, ?_⟩, fun _ => ⟨⟨?_, ?_⟩, ?_⟩⟩
    · intro u a x hg
      rcases hg with hg | hg <;> simpa using listenerStart_frames hg
    · intro u a x hg
      simpa using listenerStart_frames hg
    · intro u a x hg
      simpa using listenerStart_frames hg
    · intro x hx
      simp [listenerStart, System.start, Session.construct] at hx
    · intro x hx
      simp [listenerStart, System.start] at hx
    · intro u x f hg
      simpa using listenerStart_frames hg
  · intro s act s' log hl hinv _ hnext
    obtain ⟨htraced, hopened⟩ := hinv
    cases listener_move hnext with
    | enter t c f mem _ hstep =>
      exact ⟨htraced.enter hstep, fun hok => (hopened hok.before).enter hok hstep⟩
    | step t c f fs new mem hf hstep =>
      exact ⟨htraced.step (holders_le hl.reach) hf hstep,
        fun hok => (hopened hok.before).step htraced hok hf hstep⟩

end

/-- Thread `t` connects session `x`, and its `ConnectEx` is reported as `ok`. -/
def connectReported {T S : Type} (t : T) (x : S) (ok : Bool) :
    List (Action T (ListenerChoice T S)) :=
  [.step t (.session .go), .enter t (.session (.callConnect x)), .step t (.session .go),
    .step t (.session (.result true)), .step t (.session .go), .step t (.session (.result true)),
    .enter t (.completed (.connect x) ok), .step t (.session .go), .step t (.session .go)]

theorem failed_connect_connects : ¬∀ (s : ListenerConf Unit Unit) (log : List (Report Unit)),
    listenerMachine.Logged (fun _ _ => True) reports (listenerStart () .empty .empty 0) s log →
    OnlySucceeded s log := by
  intro claim
  have hlogged := Machine.logged_finalChecked (listenerMachine (T := Unit) (S := Unit))
    (fun _ _ => true) reports (listenerStart () .empty .empty 0) (connectReported () () false)
    (by decide)
  have honly := claim _ _ (hlogged.mono fun _ _ _ => trivial)
  have hfailed := honly.connected () (by decide)
  rcases hfailed with hfailed | hfailed
  · exact absurd hfailed (by decide)
  · exact absurd hfailed (by decide)

/-- The only context is armed with session `x`, and a client is accepted and connected. -/
def acceptReported {T S : Type} (t : T) (x : S) (ok : Bool) :
    List (Action T (ListenerChoice T S)) :=
  [.step t (.session .go), .step t (.create x), .step t (.session (.result true)),
    .step t (.session .go), .enter t (.completed (.accept 0) ok), .step t (.session .go),
    .step t (.session .go), .step t (.session (.result true)), .step t (.session (.result true)),
    .step t (.session .go), .step t (.session .go)]

theorem only_successful_connects_oneClient : ∃ (s : ListenerConf Unit Unit)
    (log : List (Report Unit)), (s.mem.system.session ()).mIsConnected = true ∧
      () ∈ s.mem.system.mSessions ∧ OnlySucceeded s log := by
  have hlogged := Machine.logged_finalChecked (listenerMachine (T := Unit) (S := Unit))
    (fun _ _ => true) reports (listenerStart () .empty .empty 1) (acceptReported () () true)
    (by decide)
  have hhonest : Honest (listenerMachine.record reports
      (listenerStart (T := Unit) (S := Unit) () .empty .empty 1) (acceptReported () () true)) :=
    ⟨by decide, by decide⟩
  exact ⟨_, _, by decide, by decide,
    only_successful_connects () .empty .empty 1 (hlogged.mono fun _ _ _ => trivial) hhonest⟩

end ServerCore.Network
