import ServerCore.Network.SessionInvariant

namespace ServerCore.Network

open Framework

variable {T S : Type} [DecidableEq T] [DecidableEq S]

/-- `AcceptContext`, whose `mDispatcher` is the listener; `pending` tells whether its `AcceptEx` is
outstanding. -/
structure AcceptContext (S : Type) where
  mSession : Option S
  pending : Bool

/-- A `ListenerService` with its `Listener`. The contexts are numbered as in `mAcceptEvents`. -/
structure ListenerSystem (T S : Type) where
  system : System T S
  accept : ℕ → AcceptContext S
  mMaxSessionCount : ℕ

/-- What `GetQueuedCompletionStatus` hands to `ProcessDispatch`, RIO notifications apart. -/
inductive Completion (S : Type) where
  | connect (x : S)
  | disconnect (x : S)
  | accept (a : ℕ)
  deriving DecidableEq

/-- Positions inside the functions of `Listener`, over those of the sessions. -/
inductive ListenerFrame (T S : Type) where
  | session (f : SessionFrame T S)
  /-- The loop of `StartAccept`. -/
  | startAccept (i : ℕ)
  /-- `RegisterAccept` called; `CreateSession` is next. -/
  | registerAccept (a : ℕ)
  | acceptEx (a : ℕ)
  /-- A completion was dequeued; its context's `mDispatcher` is read next. -/
  | dispatch (a : ℕ)
  /-- `ProcessAccept` called; `mSession` is read next. -/
  | processAccept (a : ℕ)
  /-- `SetUpdateAcceptSocket` is next. -/
  | updateSocket (a : ℕ) (session : S)
  | getPeerName (a : ℕ) (session : S)
  deriving DecidableEq

inductive ListenerChoice (T S : Type) where
  | session (c : Choice T S)
  /-- A completion, reported as succeeded or failed. -/
  | completed (completion : Completion S) (ok : Bool)
  /-- The session that `CreateSession` makes. -/
  | create (x : S)
  deriving DecidableEq

abbrev ListenerConf (T S : Type) : Type := Conf T (ListenerSystem T S) (ListenerFrame T S)

namespace ListenerSystem

/-- The context is overwritten: it lets go of a session that it still holds. -/
def letGo (σ : ListenerSystem T S) (a : ℕ) : System T S :=
  match (σ.accept a).mSession with
  | none => σ.system
  | some x => σ.system.set x { σ.system.session x with accepting := false }

def setAccept (σ : ListenerSystem T S) (a : ℕ) (context : AcceptContext S) : ListenerSystem T S :=
  { σ with accept := Function.update σ.accept a context }

/-- The destructor does not run while some context refers to the session. -/
def mayRun (σ : ListenerSystem T S) : Choice T S → Bool
  | .destroy x =>
      (List.range σ.mMaxSessionCount).all fun a => decide ((σ.accept a).mSession ≠ some x)
  | _ => true

end ListenerSystem

omit [DecidableEq T] [DecidableEq S] in
theorem mSession_setAccept {σ : ListenerSystem T S} {b : ℕ} {context : AcceptContext S}
    (h : context.mSession = (σ.accept b).mSession) (a : ℕ) :
    ((σ.setAccept b context).accept a).mSession = (σ.accept a).mSession := by
  by_cases hb : a = b
  · subst hb
    simpa [ListenerSystem.setAccept] using h
  · simp [ListenerSystem.setAccept, hb]

omit [DecidableEq T] in
theorem letGo_of_ne {σ : ListenerSystem T S} {a : ℕ} {x : S}
    (hx : (σ.accept a).mSession ≠ some x) : (σ.letGo a).session x = σ.system.session x := by
  unfold ListenerSystem.letGo
  split
  · rfl
  · next y hy =>
    apply System.set_session_of_ne
    rintro rfl
    exact hx hy

omit [DecidableEq T] in
theorem letGo_bound (σ : ListenerSystem T S) (a : ℕ) (x : S) :
    ((σ.letGo a).session x).bound = (σ.system.session x).bound := by
  unfold ListenerSystem.letGo
  split
  · rfl
  · next y _ => by_cases hx : x = y <;> simp [hx]

omit [DecidableEq T] in
theorem letGo_connected (σ : ListenerSystem T S) (a : ℕ) (x : S) :
    ((σ.letGo a).session x).mIsConnected = (σ.system.session x).mIsConnected := by
  unfold ListenerSystem.letGo
  split
  · rfl
  · next y _ => by_cases hx : x = y <;> simp [hx]

omit [DecidableEq T] in
theorem letGo_mSessions (σ : ListenerSystem T S) (a : ℕ) :
    (σ.letGo a).mSessions = σ.system.mSessions := by
  unfold ListenerSystem.letGo
  split <;> rfl

/-- One step of `StartAccept`, `RegisterAccept` or `ProcessAccept`, or of a session. -/
def listenerStep (σ : ListenerSystem T S) (t : T) :
    ListenerFrame T S → ListenerChoice T S → Option (ListenerSystem T S × List (ListenerFrame T S))
  | .session f, .session c => (step σ.system t f c).map fun r =>
      ({ σ with system := r.1 }, r.2.map .session)
  | .startAccept i, .session .go =>
      if i < σ.mMaxSessionCount then some (σ, [.registerAccept i, .startAccept (i + 1)])
      else some (σ, [])
  | .registerAccept a, .create x =>
      let s := σ.system.session x
      if s.bound = false ∧ s.destroyed = false then
        let system := (σ.letGo a).set x { s with bound := true, accepting := true }
        some ({ σ.setAccept a ⟨some x, false⟩ with system := system }, [.acceptEx a])
      else none
  | .acceptEx a, .session (.result ok) =>
      if ok then some (σ.setAccept a { σ.accept a with pending := true }, [])
      else some (σ, [.registerAccept a])
  | .dispatch a, .session .go => some (σ, [.processAccept a])
  | .processAccept a, .session .go =>
      (σ.accept a).mSession.map fun x => (σ, [.updateSocket a x])
  | .updateSocket a x, .session (.result ok) =>
      some (σ, if ok then [.getPeerName a x] else [.registerAccept a])
  | .getPeerName a x, .session (.result ok) =>
      if ok then
        let system := σ.system.set x { σ.system.session x with accepting := false }
        some ({ σ with system := system },
          [.session (x, .connect .processConnect), .registerAccept a])
      else some (σ, [.registerAccept a])
  | _, _ => none

/-- The frames of the sessions on a stack. -/
def sessionFrames (frames : List (ListenerFrame T S)) : List (SessionFrame T S) :=
  frames.filterMap fun
    | .session f => some f
    | _ => none

/-- No function of the listener is on top of the stack. -/
def inSession : List (ListenerFrame T S) → Bool
  | [] | .session _ :: _ => true
  | _ => false

/-- The call is none of those that a completion makes through the listener. -/
def Choice.direct : Choice T S → Bool
  | .accepted _ | .connected _ | .disconnected _ => false
  | _ => true

/-- `ProcessDispatch` treats a completion alike whether it is reported as succeeded or as failed. -/
def listenerEnter [Fintype T] (σ : ListenerSystem T S) (frames : T → List (ListenerFrame T S))
    (t : T) : ListenerChoice T S → Option (ListenerSystem T S × ListenerFrame T S)
  | .session c =>
      if inSession (frames t) ∧ c.direct ∧ σ.mayRun c then
        (enter σ.system (fun u => sessionFrames (frames u)) t c).map fun r =>
          ({ σ with system := r.1 }, .session r.2)
      else none
  | .completed (.connect x) _ =>
      if frames t = [] then
        (enter σ.system (fun u => sessionFrames (frames u)) t (.connected x)).map fun r =>
          ({ σ with system := r.1 }, .session r.2)
      else none
  | .completed (.disconnect x) _ =>
      if frames t = [] then
        (enter σ.system (fun u => sessionFrames (frames u)) t (.disconnected x)).map fun r =>
          ({ σ with system := r.1 }, .session r.2)
      else none
  | .completed (.accept a) _ =>
      if frames t = [] ∧ (σ.accept a).pending then
        some (σ.setAccept a { σ.accept a with pending := false }, .dispatch a)
      else none
  | _ => none

/-- Any number of threads over a listening service. -/
def listenerMachine [Fintype T] :
    Machine T (ListenerSystem T S) (ListenerFrame T S) (ListenerChoice T S) :=
  ⟨listenerEnter, listenerStep, fun _ _ => none⟩

/-- Thread `t` is about to run the loop of `StartAccept`. -/
def listenerStart (t : T) (recvPool sendPool : RegisteredBufferPool T) (maxSessionCount : ℕ) :
    ListenerConf T S :=
  ⟨⟨.start recvPool sendPool, fun _ => ⟨none, false⟩, maxSessionCount⟩,
    Function.update (fun _ => []) t [.startAccept 0]⟩

omit [DecidableEq S] in
theorem listenerStart_frames {t u : T} {recvPool sendPool : RegisteredBufferPool T}
    {maxSessionCount : ℕ} {f : ListenerFrame T S}
    (h : f ∈ (listenerStart t recvPool sendPool maxSessionCount).frames u) : f = .startAccept 0 := by
  by_cases hu : u = t
  · subst hu
    simpa [listenerStart] using h
  · simp [listenerStart, hu] at h

/-- All that a step of the listener can do. -/
inductive ListenerStep (t : T) (σ : ListenerSystem T S) :
    ListenerFrame T S → ListenerChoice T S → ListenerSystem T S → List (ListenerFrame T S) → Prop
  | session (x f c system new) : FrameStep x t σ.system f c system new →
      ListenerStep t σ (.session (x, f)) (.session c) { σ with system := system }
        (new.map fun g => .session (x, g))
  | startAccept (i) : i < σ.mMaxSessionCount →
      ListenerStep t σ (.startAccept i) (.session .go) σ [.registerAccept i, .startAccept (i + 1)]
  | started (i) : σ.mMaxSessionCount ≤ i →
      ListenerStep t σ (.startAccept i) (.session .go) σ []
  | create (a x) : (σ.system.session x).bound = false → (σ.system.session x).destroyed = false →
      ListenerStep t σ (.registerAccept a) (.create x)
        { σ.setAccept a ⟨some x, false⟩ with
          system := (σ.letGo a).set x
            { σ.system.session x with bound := true, accepting := true } } [.acceptEx a]
  | post (a) : ListenerStep t σ (.acceptEx a) (.session (.result true))
      (σ.setAccept a { σ.accept a with pending := true }) []
  | refused (a) : ListenerStep t σ (.acceptEx a) (.session (.result false)) σ [.registerAccept a]
  | dispatch (a) : ListenerStep t σ (.dispatch a) (.session .go) σ [.processAccept a]
  | processAccept (a x) : (σ.accept a).mSession = some x →
      ListenerStep t σ (.processAccept a) (.session .go) σ [.updateSocket a x]
  | updated (a x) :
      ListenerStep t σ (.updateSocket a x) (.session (.result true)) σ [.getPeerName a x]
  | notUpdated (a x) :
      ListenerStep t σ (.updateSocket a x) (.session (.result false)) σ [.registerAccept a]
  | named (a x) : ListenerStep t σ (.getPeerName a x) (.session (.result true))
      { σ with system := σ.system.set x { σ.system.session x with accepting := false } }
      [.session (x, .connect .processConnect), .registerAccept a]
  | notNamed (a x) :
      ListenerStep t σ (.getPeerName a x) (.session (.result false)) σ [.registerAccept a]

theorem listenerStep_spec {t : T} {σ σ' : ListenerSystem T S} {f : ListenerFrame T S}
    {c : ListenerChoice T S} {new : List (ListenerFrame T S)}
    (h : listenerStep σ t f c = some (σ', new)) : ListenerStep t σ f c σ' new := by
  cases f with
  | session f =>
    cases c <;> simp only [listenerStep, reduceCtorEq, Option.map_eq_some_iff, Prod.mk.injEq] at h
    obtain ⟨⟨system, fs⟩, hstep, rfl, rfl⟩ := h
    obtain ⟨fs, hframe, rfl⟩ := step_spec hstep
    simp only [List.map_map]
    exact .session _ _ _ _ _ hframe
  | startAccept i =>
    rcases c with c | _ | _ <;> (try cases c) <;> simp only [listenerStep, reduceCtorEq] at h
    split at h <;> simp only [Option.some.injEq, Prod.mk.injEq] at h <;> obtain ⟨rfl, rfl⟩ := h
    · next hi => exact .startAccept _ hi
    · next hi => exact .started _ (not_lt.mp hi)
  | registerAccept a =>
    rcases c with c | _ | _ <;> (try cases c) <;> simp only [listenerStep, reduceCtorEq] at h
    split at h <;> simp only [reduceCtorEq, Option.some.injEq, Prod.mk.injEq] at h
    next hfresh =>
    obtain ⟨rfl, rfl⟩ := h
    exact .create _ _ hfresh.1 hfresh.2
  | acceptEx a =>
    rcases c with c | _ | _ <;> (try cases c) <;> simp only [listenerStep, reduceCtorEq] at h
    split at h <;> simp only [Option.some.injEq, Prod.mk.injEq] at h <;> obtain ⟨rfl, rfl⟩ := h
    · next hok =>
      subst hok
      exact .post _
    · next hok =>
      obtain rfl := Bool.eq_false_iff.mpr hok
      exact .refused _
  | dispatch a =>
    rcases c with c | _ | _ <;> (try cases c) <;>
      simp only [listenerStep, reduceCtorEq, Option.some.injEq, Prod.mk.injEq] at h
    obtain ⟨rfl, rfl⟩ := h
    exact .dispatch _
  | processAccept a =>
    rcases c with c | _ | _ <;> (try cases c) <;>
      simp only [listenerStep, reduceCtorEq, Option.map_eq_some_iff, Prod.mk.injEq] at h
    obtain ⟨x, hx, rfl, rfl⟩ := h
    exact .processAccept _ _ hx
  | updateSocket a x =>
    rcases c with c | _ | _ <;> (try cases c) <;>
      simp only [listenerStep, reduceCtorEq, Option.some.injEq, Prod.mk.injEq] at h
    next ok =>
    obtain ⟨rfl, rfl⟩ := h
    cases ok
    · exact .notUpdated _ _
    · exact .updated _ _
  | getPeerName a x =>
    rcases c with c | _ | _ <;> (try cases c) <;> simp only [listenerStep, reduceCtorEq] at h
    split at h <;> simp only [Option.some.injEq, Prod.mk.injEq] at h <;> obtain ⟨rfl, rfl⟩ := h
    · next hok =>
      subst hok
      exact .named _ _
    · next hok =>
      obtain rfl := Bool.eq_false_iff.mpr hok
      exact .notNamed _ _

/-- All that entering a function can do in a listening service. -/
inductive ListenerEnter (σ : ListenerSystem T S) (frames : T → List (SessionFrame T S)) :
    ListenerChoice T S → ListenerSystem T S → ListenerFrame T S → Prop
  | call (c system x f) : c.direct = true → EnterStep σ.system frames c system x f →
      ListenerEnter σ frames (.session c) { σ with system := system } (.session (x, f))
  | connected (x ok system y f) : EnterStep σ.system frames (.connected x) system y f →
      ListenerEnter σ frames (.completed (.connect x) ok) { σ with system := system }
        (.session (y, f))
  | disconnected (x ok system y f) : EnterStep σ.system frames (.disconnected x) system y f →
      ListenerEnter σ frames (.completed (.disconnect x) ok) { σ with system := system }
        (.session (y, f))
  | accepted (a ok) : (σ.accept a).pending = true →
      ListenerEnter σ frames (.completed (.accept a) ok)
        (σ.setAccept a { σ.accept a with pending := false }) (.dispatch a)

omit [DecidableEq T] in
theorem listenerEnter_spec [Fintype T] {σ σ' : ListenerSystem T S}
    {frames : T → List (ListenerFrame T S)} {t : T} {c : ListenerChoice T S}
    {f : ListenerFrame T S} (h : listenerEnter σ frames t c = some (σ', f)) :
    ListenerEnter σ (fun u => sessionFrames (frames u)) c σ' f ∧
      (inSession (frames t) = true) := by
  cases c with
  | session c =>
    simp only [listenerEnter] at h
    split at h <;> simp only [reduceCtorEq, Option.map_eq_some_iff, Prod.mk.injEq] at h
    next hc =>
    obtain ⟨⟨system, x, f⟩, he, rfl, rfl⟩ := h
    exact ⟨.call _ _ _ _ hc.2.1 (enter_spec he), hc.1⟩
  | completed completion ok =>
    cases completion with
    | connect x =>
      simp only [listenerEnter] at h
      split at h <;> simp only [reduceCtorEq, Option.map_eq_some_iff, Prod.mk.injEq] at h
      next hc =>
      obtain ⟨⟨system, y, f⟩, he, rfl, rfl⟩ := h
      exact ⟨.connected _ _ _ _ _ (enter_spec he), by rw [hc]; rfl⟩
    | disconnect x =>
      simp only [listenerEnter] at h
      split at h <;> simp only [reduceCtorEq, Option.map_eq_some_iff, Prod.mk.injEq] at h
      next hc =>
      obtain ⟨⟨system, y, f⟩, he, rfl, rfl⟩ := h
      exact ⟨.disconnected _ _ _ _ _ (enter_spec he), by rw [hc]; rfl⟩
    | accept a =>
      simp only [listenerEnter] at h
      split at h <;> simp only [reduceCtorEq, Option.some.injEq, Prod.mk.injEq] at h
      next hc =>
      obtain ⟨rfl, rfl⟩ := h
      exact ⟨.accepted _ _ hc.2, by rw [hc.1]; rfl⟩
  | create x => simp [listenerEnter] at h

omit [DecidableEq T] in
theorem ListenerEnter.mSession {σ σ' : ListenerSystem T S} {frames : T → List (SessionFrame T S)}
    {c : ListenerChoice T S} {f : ListenerFrame T S} (h : ListenerEnter σ frames c σ' f) (a : ℕ) :
    (σ'.accept a).mSession = (σ.accept a).mSession := by
  cases h with
  | accepted b ok _ =>
    apply mSession_setAccept
    rfl
  | _ => rfl

section

variable [Fintype T]

/-- What an action does to a listening service. -/
inductive ListenerMove (s : ListenerConf T S) : Action T (ListenerChoice T S) → ListenerConf T S → Prop
  | enter (t c f mem) : inSession (s.frames t) = true →
      ListenerEnter s.mem (fun u => sessionFrames (s.frames u)) c mem f →
      ListenerMove s (.enter t c) ⟨mem, Function.update s.frames t (f :: s.frames t)⟩
  | step (t c f fs new mem) : s.frames t = f :: fs → ListenerStep t s.mem f c mem new →
      ListenerMove s (.step t c) ⟨mem, Function.update s.frames t (new ++ fs)⟩

theorem listener_move {s s' : ListenerConf T S} {a : Action T (ListenerChoice T S)}
    (h : listenerMachine.next s a = some s') : ListenerMove s a s' := by
  rcases Machine.next_cases h with ⟨t, c, mem, f, rfl, he, rfl⟩ |
    ⟨t, c, f, fs, mem, new, rfl, hs, he, rfl⟩ | ⟨c, mem, rfl, he, rfl⟩
  · obtain ⟨hstep, hin⟩ := listenerEnter_spec he
    exact .enter _ _ _ _ hin hstep
  · exact .step _ _ _ _ _ _ hs (listenerStep_spec he)
  · simp [listenerMachine] at he

/-- The frame works on context `a`. -/
def ListenerFrame.holds (a : ℕ) : ListenerFrame T S → ℕ
  | .session _ => 0
  | .startAccept i => if i ≤ a then 1 else 0
  | .registerAccept b | .acceptEx b | .dispatch b | .processAccept b | .updateSocket b _
  | .getPeerName b _ => if b = a then 1 else 0

def AcceptContext.posted (context : AcceptContext S) : ℕ := if context.pending then 1 else 0

/-- How many threads and completions work on context `a`. -/
def holders (a : ℕ) (s : ListenerConf T S) : ℕ :=
  weight (ListenerFrame.holds a) s.frames + (s.mem.accept a).posted

omit [DecidableEq T] [DecidableEq S] [Fintype T] in
@[simp] theorem stackWeight_session (a : ℕ) (x : S) (new : List (Frame T)) :
    stackWeight (ListenerFrame.holds a) (new.map fun g => .session (x, g)) = 0 := by
  induction new with
  | nil => rfl
  | cons g new ih => simpa [ListenerFrame.holds] using ih

omit [Fintype T] in
theorem ListenerStep.holds {t : T} {σ σ' : ListenerSystem T S} {f : ListenerFrame T S}
    {c : ListenerChoice T S} {new : List (ListenerFrame T S)} (h : ListenerStep t σ f c σ' new)
    (a : ℕ) : stackWeight (ListenerFrame.holds a) new + (σ'.accept a).posted ≤
      f.holds a + (σ.accept a).posted := by
  cases h with
  | session x f c system new h => simp [ListenerFrame.holds]
  | startAccept i hi =>
    simp only [stackWeight_cons, stackWeight_nil, ListenerFrame.holds]
    split_ifs <;> omega
  | started i hi => simp
  | create b x _ _ | post b =>
    by_cases hb : b = a
    · subst hb
      simp [ListenerFrame.holds, ListenerSystem.setAccept, AcceptContext.posted]
    · simp [ListenerFrame.holds, ListenerSystem.setAccept, hb, Ne.symm hb]
  | _ => simp [ListenerFrame.holds]

omit [DecidableEq T] [Fintype T] in
theorem ListenerEnter.holds_kept {σ σ' : ListenerSystem T S} {frames : T → List (SessionFrame T S)}
    {c : ListenerChoice T S} {f : ListenerFrame T S} (h : ListenerEnter σ frames c σ' f) (a : ℕ) :
    f.holds a + (σ'.accept a).posted = (σ.accept a).posted := by
  cases h with
  | accepted b ok hp =>
    by_cases hb : b = a
    · subst hb
      simp [ListenerFrame.holds, ListenerSystem.setAccept, AcceptContext.posted, hp]
    · simp [ListenerFrame.holds, ListenerSystem.setAccept, hb, Ne.symm hb]
  | _ => simp [ListenerFrame.holds]

theorem holders_next (a : ℕ) {s s' : ListenerConf T S} {act : Action T (ListenerChoice T S)}
    (h : listenerMachine.next s act = some s') : holders a s' ≤ holders a s := by
  cases listener_move h with
  | enter t c f mem _ hstep =>
    have hframes := weight_enter (ListenerFrame.holds a) s.frames t f
    have hholds := hstep.holds_kept a
    simp only [holders]
    omega
  | step t c f fs new mem hf hstep =>
    have hframes := weight_step (ListenerFrame.holds a) hf new
    have hholds := hstep.holds a
    simp only [holders]
    omega

/-- At most one thread or completion works on a context. -/
theorem holders_le {ok : ListenerConf T S → Action T (ListenerChoice T S) → Prop} {t : T}
    {recvPool sendPool : RegisteredBufferPool T} {maxSessionCount : ℕ} {s : ListenerConf T S}
    (h : listenerMachine.Reach ok (listenerStart t recvPool sendPool maxSessionCount) s) (a : ℕ) :
    holders a s ≤ 1 := by
  refine h.invariant (fun s => holders a s ≤ 1) ?_ fun s act s' _ ih _ hnext =>
    (holders_next a hnext).trans ih
  have hframes := weight_update (ListenerFrame.holds a : ListenerFrame T S → ℕ) (fun _ => []) t
    [.startAccept 0]
  simp only [weight_idle, stackWeight_nil, stackWeight_cons, ListenerFrame.holds, Nat.zero_le,
    if_true, add_zero, zero_add] at hframes
  exact hframes.le

end

end ServerCore.Network
