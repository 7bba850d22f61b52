import ServerCore.Network.KeyDispatch
import ServerCore.Network.SessionInvariant

namespace ServerCore.Network

open Framework

inductive ServiceKind where
  | listenerService
  | connectService
  deriving DecidableEq

/-- The calls with which a program starts a service up. -/
inductive StartupCall where
  | start
  | createRIOCQ
  | initWorkerThread
  deriving DecidableEq

/-- The calls of `ServerApp::InitListener`, in its order; a `ConnectService` has no
`CreateRIOCQ`. -/
def startupCalls (networkThreadCount : Int) : ServiceKind → List StartupCall
  | .listenerService =>
      .start :: (List.replicate networkThreadCount.toNat .createRIOCQ ++ [.initWorkerThread])
  | .connectService => [.start, .initWorkerThread]

/-- A service over its sessions. `started` lets the listener post its `AcceptEx`, `launched` tells
that threads run `ProcessDispatch`, `ready` that all calls returned. -/
structure ServiceSystem (T S : Type) where
  system : System T S
  kind : ServiceKind
  mMaxSessionCount : Int
  mRioCQEventList : List ℕ
  started : Bool
  launched : Bool
  ready : Bool

inductive ServiceFrame (T S : Type) where
  | session (f : SessionFrame T S)
  /-- The calls that are left. -/
  | startup (calls : List StartupCall)
  /-- Head of the loop of `ConnectService::Start`. -/
  | connectAll (i : ℕ) (calls : List StartupCall)
  /-- `session->Connect() == false` is next. -/
  | connected (i : ℕ) (calls : List StartupCall)
  deriving DecidableEq

inductive ServiceChoice (T S : Type) where
  | session (c : Choice T S)
  /-- The session that `CreateSession` makes. -/
  | create (x : S)
  /-- The queue that `CreateRIOCQ` makes, unless it fails. -/
  | createRIOCQ (rioCQ : Option ℕ)
  deriving DecidableEq

abbrev ServiceConf (T S : Type) : Type := Conf T (ServiceSystem T S) (ServiceFrame T S)

variable {T S : Type} [DecidableEq T] [DecidableEq S]

/-- `CreateRIORQ` asks for the queue, and the modulus is zero. -/
def modulusZero (σ : ServiceSystem T S) (f : SessionFrame T S) : Bool :=
  f.2 = .connect .createRIORQ ∧
    GetRIOCQ σ.mRioCQEventList.length (σ.system.session f.1).mSessionID = none

/-- One step of a start-up call or of a session. A call that returns `false` ends the start-up. -/
def serviceStep (σ : ServiceSystem T S) (t : T) :
    ServiceFrame T S → ServiceChoice T S → Option (ServiceSystem T S × List (ServiceFrame T S))
  | .session f, .session c =>
      if modulusZero σ f then none
      else (step σ.system t f c).map fun r => ({ σ with system := r.1 }, r.2.map .session)
  | .startup [], .session .go => some ({ σ with ready := true }, [])
  | .startup (.start :: calls), .session (.result ok) =>
      if ok then
        match σ.kind with
        | .listenerService => some ({ σ with started := true }, [.startup calls])
        | .connectService => some (σ, [.connectAll 0 calls])
      else some (σ, [])
  | .startup (.createRIOCQ :: calls), .createRIOCQ rioCQ =>
      match rioCQ with
      | none => some (σ, [])
      | some cq => some ({ σ with mRioCQEventList := σ.mRioCQEventList ++ [cq] }, [.startup calls])
  | .startup (.initWorkerThread :: calls), .session .go =>
      some ({ σ with launched := true }, [.startup calls])
  | .connectAll i calls, .create x =>
      let s := σ.system.session x
      if i < σ.mMaxSessionCount ∧ s.bound = false ∧ s.destroyed = false then
        some (σ, [.session (x, .connect .connect), .connected i calls])
      else none
  | .connectAll i calls, .session .go =>
      if i < σ.mMaxSessionCount then none else some (σ, [.startup calls])
  | .connected i calls, .session (.result ok) =>
      some (σ, if ok then [.connectAll (i + 1) calls] else [])
  | _, _ => none

/-- The frames of the sessions on a stack. -/
def serviceSessions (frames : List (ServiceFrame T S)) : List (SessionFrame T S) :=
  frames.filterMap fun f =>
    match f with
    | .session f => some f
    | _ => none

/-- The thread is not between two start-up calls. -/
def outsideStartup : List (ServiceFrame T S) → Bool
  | [] | .session _ :: _ => true
  | _ => false

/-- A call that a completion makes. -/
def Choice.completes : Choice T S → Bool
  | .accepted _ | .connected _ | .disconnected _ | .received .. | .sent .. => true
  | _ => false

/-- Completions are dispatched by the threads of `InitWorkerThread`. -/
def serviceEnter [Fintype T] (σ : ServiceSystem T S) (frames : T → List (ServiceFrame T S))
    (t : T) : ServiceChoice T S → Option (ServiceSystem T S × ServiceFrame T S)
  | .session c =>
      if outsideStartup (frames t) ∧ (c.completes → σ.launched) then
        (enter σ.system (fun u => serviceSessions (frames u)) t c).map fun r =>
          ({ σ with system := r.1 }, .session r.2)
      else none
  | _ => none

/-- A listener that was started posts `AcceptEx`, or gives an accepted socket up. -/
def serviceEnv (σ : ServiceSystem T S) : ServiceChoice T S → Option (ServiceSystem T S)
  | .session c =>
      if σ.started then (env σ.system c).map fun r => { σ with system := r } else none
  | _ => none

/-- Any number of threads over a service, one of which starts it up. -/
def serviceMachine [Fintype T] :
    Machine T (ServiceSystem T S) (ServiceFrame T S) (ServiceChoice T S) :=
  ⟨serviceEnter, serviceStep, serviceEnv⟩

/-- Thread `t` is about to make the start-up calls. -/
def serviceStart (t : T) (recvPool sendPool : RegisteredBufferPool T) (kind : ServiceKind)
    (maxSessionCount : Int) (calls : List StartupCall) : ServiceConf T S :=
  ⟨⟨.start recvPool sendPool, kind, maxSessionCount, [], false, false, false⟩,
    Function.update (fun _ => []) t [.startup calls]⟩

omit [DecidableEq S] in
theorem serviceStart_frames {t u : T} {recvPool sendPool : RegisteredBufferPool T}
    {kind : ServiceKind} {maxSessionCount : Int} {calls : List StartupCall} {f : ServiceFrame T S}
    (h : f ∈ (serviceStart t recvPool sendPool kind maxSessionCount calls).frames u) :
    f = .startup calls := by
  by_cases hu : u = t
  · subst hu
    simpa [serviceStart] using h
  · simp [serviceStart, hu] at h

/-- Sessions connect after the start-up calls. -/
def connectsAfterStartup (s : ServiceConf T S) : Action T (ServiceChoice T S) → Bool
  | .enter _ (.session (.accepted _)) | .enter _ (.session (.connected _)) => s.mem.ready
  | _ => true

/-- A session is at the call of `CreateRIORQ`. -/
def CreatesQueue (s : ServiceConf T S) : Prop :=
  ∃ t x fs, s.frames t = .session (x, .connect .createRIORQ) :: fs

/-- `ProcessConnect` calls `CreateRIORQ` only while there is a completion queue. -/
def QueueExists (s : ServiceConf T S) : Prop := CreatesQueue s → s.mem.mRioCQEventList ≠ []

/-- The calls that are left once the frame returns. -/
def ServiceFrame.rest : ServiceFrame T S → Option (List StartupCall)
  | .session _ => none
  | .startup calls | .connectAll _ calls | .connected _ calls => some calls

/-- What one step of a thread does. -/
inductive ServiceStep (t : T) (σ : ServiceSystem T S) :
    ServiceFrame T S → ServiceSystem T S → List (ServiceFrame T S) → Prop
  | session (x f c system new) : FrameStep x t σ.system f c system new →
      ServiceStep t σ (.session (x, f)) { σ with system := system }
        (new.map fun g => .session (x, g))
  | ready : ServiceStep t σ (.startup []) { σ with ready := true } []
  | failed (f) : f.rest.isSome → ServiceStep t σ f σ []
  | listen (calls) : ServiceStep t σ (.startup (.start :: calls)) { σ with started := true }
      [.startup calls]
  | connect (calls) : ServiceStep t σ (.startup (.start :: calls)) σ [.connectAll 0 calls]
  | create (calls cq) : ServiceStep t σ (.startup (.createRIOCQ :: calls))
      { σ with mRioCQEventList := σ.mRioCQEventList ++ [cq] } [.startup calls]
  | launch (calls) : ServiceStep t σ (.startup (.initWorkerThread :: calls))
      { σ with launched := true } [.startup calls]
  | connectOne (i calls x) : ServiceStep t σ (.connectAll i calls) σ
      [.session (x, .connect .connect), .connected i calls]
  | connected (i calls) : ServiceStep t σ (.connectAll i calls) σ [.startup calls]
  | connectNext (i calls) : ServiceStep t σ (.connected i calls) σ [.connectAll (i + 1) calls]

theorem serviceStep_spec {t : T} {σ σ' : ServiceSystem T S} {f : ServiceFrame T S}
    {c : ServiceChoice T S} {new : List (ServiceFrame T S)}
    (h : serviceStep σ t f c = some (σ', new)) : ServiceStep t σ f σ' new := by
  cases f with
  | session f =>
    obtain ⟨x, f⟩ := f
    cases c <;> simp only [serviceStep, reduceCtorEq] at h
    split at h <;> simp only [reduceCtorEq, Option.map_eq_some_iff, Prod.mk.injEq] at h
    obtain ⟨⟨system, fs⟩, hstep, rfl, rfl⟩ := h
    obtain ⟨fs, hframe, rfl⟩ := step_spec hstep
    simp only [List.map_map]
    exact .session _ _ _ _ _ hframe
  | startup calls =>
    cases calls with
    | nil =>
      rcases c with c | _ | _ <;> (try cases c) <;>
        simp only [serviceStep, reduceCtorEq, Option.some.injEq, Prod.mk.injEq] at h
      obtain ⟨rfl, rfl⟩ := h
      exact .ready
    | cons call calls =>
      cases call with
      | start =>
        rcases c with c | _ | _ <;> (try cases c) <;> simp only [serviceStep, reduceCtorEq] at h
        split at h
        · split at h <;> simp only [Option.some.injEq, Prod.mk.injEq] at h <;>
            obtain ⟨rfl, rfl⟩ := h
          · exact .listen calls
          · exact .connect calls
        · simp only [Option.some.injEq, Prod.mk.injEq] at h
          obtain ⟨rfl, rfl⟩ := h
          exact .failed _ rfl
      | createRIOCQ =>
        rcases c with c | _ | rioCQ <;> (try cases c) <;> simp only [serviceStep, reduceCtorEq] at h
        cases rioCQ <;> simp only [Option.some.injEq, Prod.mk.injEq] at h <;>
          obtain ⟨rfl, rfl⟩ := h
        · exact .failed _ rfl
        · exact .create calls _
      | initWorkerThread =>
        rcases c with c | _ | _ <;> (try cases c) <;>
          simp only [serviceStep, reduceCtorEq, Option.some.injEq, Prod.mk.injEq] at h
        obtain ⟨rfl, rfl⟩ := h
        exact .launch calls
  | connectAll i calls =>
    rcases c with c | _ | _ <;> (try cases c) <;> simp only [serviceStep, reduceCtorEq] at h <;>
      split at h <;> simp only [reduceCtorEq, Option.some.injEq, Prod.mk.injEq] at h <;>
      obtain ⟨rfl, rfl⟩ := h
    · exact .connected i calls
    · exact .connectOne i calls _
  | connected i calls =>
    rcases c with c | _ | _ <;> (try cases c) <;>
      simp only [serviceStep, reduceCtorEq, Option.some.injEq, Prod.mk.injEq] at h
    next ok =>
    obtain ⟨rfl, rfl⟩ := h
    cases ok
    · exact .failed _ rfl
    · exact .connectNext i calls

/-- Frames between the completion of a connect and `CreateRIORQ`. -/
def Frame.beforeQueue : Frame T → Bool
  | .connect .dispatch | .connect .processConnect | .connect .addSession
  | .connect (.acquire _) | .connect (.tryDequeue _) | .connect (.useCount ..)
  | .connect (.assign ..) | .connect .createRIORQ => true
  | _ => false

def ServiceFrame.beforeQueue : ServiceFrame T S → Bool
  | .session f => f.2.beforeQueue
  | _ => false

/-- No step leads to `CreateRIORQ` from elsewhere. -/
theorem FrameStep.beforeQueue {this : S} {t : T} {σ σ' : System T S} {f : Frame T} {c : Choice T S}
    {new : List (Frame T)} (h : FrameStep this t σ f c σ' new) :
    ∀ g ∈ new, g.beforeQueue = true → f.beforeQueue = true := by
  have released (pool : Pool) (b : Option NetworkBuffer) (g : Frame T)
      (hg : g.beforeQueue = false) :
      ∀ g' ∈ releaseFrames pool b ++ [g], g'.beforeQueue = true → f.beforeQueue = true := by
    have hnone := forall_releaseFrames (P := fun g' : Frame T => g'.beforeQueue = false) pool b g
      (fun _ _ => rfl) hg
    intro g' hg' hbefore
    rw [hnone g' hg'] at hbefore
    cases hbefore
  cases h with
  | send f c s' new h => cases h <;> simp [Frame.beforeQueue]
  | recv f c s' new h => cases h <;> simp [Frame.beforeQueue]
  | connect f c σ' new h =>
    cases h with
    | assign p b => exact fun _ _ _ => rfl
    | _ => simp [Frame.beforeQueue]
  | disconnect f c σ' new h => cases h <;> simp [Frame.beforeQueue]
  | destroy f c σ' new h =>
    cases h with
    | recvBuffer => exact released _ _ _ rfl
    | sendBuffer => exact released _ _ _ rfl
    | _ => simp [Frame.beforeQueue]

omit [DecidableEq T] in
theorem EnterStep.beforeQueue {this : S} {σ σ' : System T S} {frames : T → List (SessionFrame T S)}
    {c : Choice T S} {f : Frame T} (h : EnterStep σ frames c σ' this f)
    (hf : f.beforeQueue = true) : c = .accepted this ∨ c = .connected this := by
  cases h with
  | accepted => exact .inl rfl
  | connected => exact .inr rfl
  | _ => simp [Frame.beforeQueue] at hf

theorem ServiceStep.beforeQueue {t : T} {σ σ' : ServiceSystem T S} {f : ServiceFrame T S}
    {new : List (ServiceFrame T S)} (h : ServiceStep t σ f σ' new) :
    ∀ g ∈ new, g.beforeQueue = true → f.beforeQueue = true := by
  cases h with
  | session x f c system new h =>
    intro g hg hbefore
    obtain ⟨g', hg', rfl⟩ := List.mem_map.mp hg
    exact h.beforeQueue g' hg' hbefore
  | _ => simp [ServiceFrame.beforeQueue, Frame.beforeQueue]

section Run

variable [Fintype T]

omit [DecidableEq T] in
theorem serviceEnter_spec {σ σ' : ServiceSystem T S} {frames : T → List (ServiceFrame T S)} {t : T}
    {c : ServiceChoice T S} {f : ServiceFrame T S} (h : serviceEnter σ frames t c = some (σ', f)) :
    ∃ d system x g, c = .session d ∧ σ' = { σ with system := system } ∧ f = .session (x, g) ∧
      EnterStep σ.system (fun u => serviceSessions (frames u)) d system x g ∧
      (d.completes = true → σ.launched = true) := by
  cases c with
  | session d =>
    simp only [serviceEnter] at h
    split at h <;> simp only [reduceCtorEq, Option.map_eq_some_iff, Prod.mk.injEq] at h
    next hc =>
    obtain ⟨⟨system, x, g⟩, he, rfl, rfl⟩ := h
    exact ⟨d, system, x, g, rfl, rfl, rfl, enter_spec he, hc.2⟩
  | _ => cases h

omit [DecidableEq T] [Fintype T] in
theorem serviceEnv_spec {σ σ' : ServiceSystem T S} {c : ServiceChoice T S}
    (h : serviceEnv σ c = some σ') : ∃ system, σ' = { σ with system := system } := by
  cases c with
  | session d =>
    simp only [serviceEnv] at h
    split at h <;> simp only [reduceCtorEq, Option.map_eq_some_iff] at h
    obtain ⟨system, _, rfl⟩ := h
    exact ⟨system, rfl⟩
  | _ => cases h

/-- A frame that makes start-up calls. -/
def ServiceFrame.starting (f : ServiceFrame T S) : ℕ := if f.rest.isSome then 1 else 0

/-- The calls of `CreateRIOCQ` that are left and the queues that were made are `total` together. -/
structure StartupInv (total : ℕ) (s : ServiceConf T S) : Prop where
  one : weight ServiceFrame.starting s.frames + s.mem.ready.toNat ≤ 1
  left : ∀ t, ∀ f ∈ s.frames t, ∀ rest, f.rest = some rest →
    s.mem.mRioCQEventList.length + rest.count .createRIOCQ = total
  done : s.mem.ready = true → s.mem.mRioCQEventList.length = total
  connecting : ∀ t, ∀ f ∈ s.frames t, f.beforeQueue = true → s.mem.ready = true

omit [DecidableEq S] in
theorem StartupInv.start (t : T) (recvPool sendPool : RegisteredBufferPool T) (kind : ServiceKind)
    (maxSessionCount : Int) (calls : List StartupCall) :
    StartupInv (calls.count .createRIOCQ)
      (serviceStart t recvPool sendPool kind maxSessionCount calls : ServiceConf T S) := by
  refine ⟨?_, ?_, by simp [serviceStart], ?_⟩
  · have hsum := weight_update (ServiceFrame.starting : ServiceFrame T S → ℕ) (fun _ => []) t
      [.startup calls]
    simp only [weight_idle, stackWeight_cons, stackWeight_nil] at hsum
    simp only [serviceStart, Bool.toNat_false]
    have hone : (.startup calls : ServiceFrame T S).starting = 1 := rfl
    omega
  · intro u f hf rest hrest
    rw [serviceStart_frames hf] at hrest
    cases hrest
    simp [serviceStart]
  · intro u f hf hbefore
    rw [serviceStart_frames hf] at hbefore
    cases hbefore

omit [DecidableEq T] [DecidableEq S] [Fintype T] in
/-- Session frames leave the start-up alone. -/
theorem starting_session (x : S) (new : List (Frame T)) :
    stackWeight ServiceFrame.starting (new.map fun g => (.session (x, g) : ServiceFrame T S)) = 0 := by
  apply stackWeight_eq_zero
  intro f hf
  obtain ⟨g, _, rfl⟩ := List.mem_map.mp hf
  rfl

omit [Fintype T] in
/-- What a step does to the start-up. -/
theorem ServiceStep.startup {t : T} {σ σ' : ServiceSystem T S} {f : ServiceFrame T S}
    {new : List (ServiceFrame T S)} (h : ServiceStep t σ f σ' new) :
    stackWeight ServiceFrame.starting new + σ'.ready.toNat ≤ f.starting + σ.ready.toNat ∧
    (σ'.mRioCQEventList = σ.mRioCQEventList ∨ f.starting = 1) ∧
    (∀ g ∈ new, ∀ rest, g.rest = some rest → ∃ calls, f.rest = some calls ∧
      σ'.mRioCQEventList.length + rest.count .createRIOCQ =
        σ.mRioCQEventList.length + calls.count .createRIOCQ) ∧
    (σ'.ready = true → σ.ready = true ∧ σ'.mRioCQEventList = σ.mRioCQEventList ∨
      f.rest = some [] ∧ σ'.mRioCQEventList = σ.mRioCQEventList ∨ f.starting = 1 ∧ σ.ready = true) := by
  cases h with
  | session x f c system new h =>
    refine ⟨by simp [starting_session, ServiceFrame.starting, ServiceFrame.rest], .inl rfl, ?_,
      fun hr => .inl ⟨hr, rfl⟩⟩
    intro g hg rest hrest
    obtain ⟨g', _, rfl⟩ := List.mem_map.mp hg
    cases hrest
  | ready =>
    refine ⟨?_, .inl rfl, by simp, fun _ => .inr (.inl ⟨rfl, rfl⟩)⟩
    simp [ServiceFrame.starting, ServiceFrame.rest]
  | failed f hf => exact ⟨by simp, .inl rfl, by simp, fun hr => .inl ⟨hr, rfl⟩⟩
  | create calls cq =>
    refine ⟨by simp [ServiceFrame.starting, ServiceFrame.rest], .inr rfl, ?_,
      fun hr => .inr (.inr ⟨rfl, hr⟩)⟩
    intro g hg rest hrest
    obtain rfl := List.mem_singleton.mp hg
    cases hrest
    refine ⟨_, rfl, ?_⟩
    simp only [List.length_append, List.length_singleton, List.count_cons_self]
    omega
  | connectOne i calls x =>
    refine ⟨by simp [ServiceFrame.starting, ServiceFrame.rest], .inl rfl, ?_,
      fun hr => .inl ⟨hr, rfl⟩⟩
    intro g hg rest hrest
    rcases List.mem_cons.mp hg with rfl | hg
    · cases hrest
    · obtain rfl := List.mem_singleton.mp hg
      exact ⟨calls, rfl, by cases hrest; rfl⟩
  | _ =>
    refine ⟨by simp [ServiceFrame.starting, ServiceFrame.rest], .inl rfl, ?_,
      fun hr => .inl ⟨hr, rfl⟩⟩
    intro g hg rest hrest
    obtain rfl := List.mem_singleton.mp hg
    cases hrest
    exact ⟨_, rfl, by simp⟩

theorem StartupInv.next {total : ℕ} {s s' : ServiceConf T S} {a : Action T (ServiceChoice T S)}
    (h : StartupInv total s) (hok : connectsAfterStartup s a = true)
    (hs' : serviceMachine.next s a = some s') : StartupInv total s' := by
  rcases Machine.next_cases hs' with ⟨t, c, mem, f, rfl, he, rfl⟩ |
    ⟨t, c, f, fs, mem, new, rfl, hs, he, rfl⟩ | ⟨c, mem, rfl, he, rfl⟩
  · obtain ⟨d, system, x, g, rfl, rfl, rfl, henter, _⟩ := serviceEnter_spec he
    refine ⟨?_, ?_, h.done, ?_⟩
    · rw [weight_push s.frames t rfl]
      exact h.one
    · intro u f hf rest hrest
      rcases mem_push hf with rfl | hf
      · cases hrest
      · exact h.left u f hf rest hrest
    · intro u f hf hbefore
      rcases mem_push hf with rfl | hf
      · rcases henter.beforeQueue hbefore with rfl | rfl
        · exact hok
        · exact hok
      · exact h.connecting u f hf hbefore
  · have hstep : ServiceStep t s.mem f mem new := serviceStep_spec he
    have hmem : f ∈ s.frames t := by
      rw [hs]
      exact List.mem_cons_self ..
    obtain ⟨hone, hlist, hrest, hready⟩ := hstep.startup
    have honce := h.one
    have htop := top_le_weight ServiceFrame.starting hs
    -- a thread that makes queues is the only one that starts up
    have alone (hf : f.starting = 1) (u : T) (g : ServiceFrame T S)
        (hg : Other s.frames t fs u g) : g.rest = none := by
      have hweight := hg.weight hs ServiceFrame.starting
      by_contra hne
      have hg1 : g.starting = 1 := if_pos (Option.isSome_iff_ne_none.mpr hne)
      omega
    refine ⟨?_, ?_, ?_, ?_⟩
    · have hsum := weight_step ServiceFrame.starting hs new
      show weight _ (Function.update s.frames t (new ++ fs)) + mem.ready.toNat ≤ 1
      omega
    · intro u g hg rest hgrest
      rcases mem_update new hg with ⟨_, hg⟩ | hother
      · obtain ⟨calls, hcalls, heq⟩ := hrest g hg rest hgrest
        show mem.mRioCQEventList.length + _ = total
        rw [heq]
        exact h.left t f hmem calls hcalls
      · rcases hlist with hsame | hf
        · show mem.mRioCQEventList.length + _ = total
          rw [hsame]
          exact h.left u g (hother.mem hs) rest hgrest
        · rw [alone hf u g hother] at hgrest
          cases hgrest
    · intro hr
      show mem.mRioCQEventList.length = total
      rcases hready hr with ⟨hr, hsame⟩ | ⟨hnil, hsame⟩ | ⟨hf, hr⟩
      · rw [hsame]
        exact h.done hr
      · rw [hsame]
        simpa using h.left t f hmem [] hnil
      · have htwo : s.mem.ready.toNat = 1 := by rw [hr]; rfl
        omega
    · intro u g hg hbefore
      have grows : s.mem.ready = true → mem.ready = true := by
        cases hstep <;> first | exact id | exact fun _ => rfl
      rcases mem_update new hg with ⟨_, hg⟩ | hother
      · exact grows (h.connecting t f hmem (hstep.beforeQueue g hg hbefore))
      · exact grows (h.connecting u g (hother.mem hs) hbefore)
  · obtain ⟨system, rfl⟩ := serviceEnv_spec he
    exact ⟨h.one, h.left, h.done, h.connecting⟩

omit [DecidableEq T] [DecidableEq S] [Fintype T] in
theorem startupCalls_count (networkThreadCount : Int) (kind : ServiceKind) :
    (startupCalls networkThreadCount kind).count .createRIOCQ =
      if kind = .listenerService then networkThreadCount.toNat else 0 := by
  cases kind with
  | listenerService => simp [startupCalls, List.count_append]
  | connectService => rfl

/-- In every run of a `ListenerService` with a `NetworkThreadCount` of at least one there is a
queue whenever `CreateRIORQ` is called; without that there is none at any such call. -/
theorem queue_exists_iff {networkThreadCount maxSessionCount : Int} {kind : ServiceKind}
    {calls : List StartupCall} {t : T} {recvPool sendPool : RegisteredBufferPool T}
    {s : ServiceConf T S} (hcalls : calls.Perm (startupCalls networkThreadCount kind))
    (h : serviceMachine.Reach (fun s a => connectsAfterStartup s a = true)
      (serviceStart t recvPool sendPool kind maxSessionCount calls) s) :
    QueueExists s ↔ (kind = .listenerService ∧ 1 ≤ networkThreadCount) ∨ ¬CreatesQueue s := by
  have hinv : StartupInv (calls.count .createRIOCQ) s :=
    h.invariant (StartupInv _) (StartupInv.start t recvPool sendPool kind maxSessionCount calls)
      fun _ _ _ _ hi hok hs => hi.next hok hs
  have hcount : calls.count .createRIOCQ =
      if kind = .listenerService then networkThreadCount.toNat else 0 := by
    rw [hcalls.count_eq, startupCalls_count]
  have hlength (hcreates : CreatesQueue s) :
      s.mem.mRioCQEventList.length = calls.count .createRIOCQ := by
    obtain ⟨u, x, fs, hs⟩ := hcreates
    apply hinv.done
    exact hinv.connecting u (.session (x, .connect .createRIORQ)) (by simp [hs]) rfl
  constructor
  · intro hexists
    by_cases hcreates : CreatesQueue s
    · have hne := List.length_pos_iff.mpr (hexists hcreates)
      rw [hlength hcreates, hcount] at hne
      apply Or.inl
      split_ifs at hne with hkind
      · exact ⟨hkind, by omega⟩
      · omega
    · exact .inr hcreates
  · intro hcases hcreates
    rcases hcases with ⟨hkind, hpos⟩ | hnone
    · apply List.length_pos_iff.mp
      rw [hlength hcreates, hcount, if_pos hkind]
      omega
    · exact absurd hcreates hnone

end Run

/-- Thread `t` starts a listener up with one queue, and takes session `x` to `CreateRIORQ`. -/
def acceptsOnQueue {T S : Type} (t : T) (x : S) : List (Action T (ServiceChoice T S)) :=
  [.step t (.session (.result true)), .step t (.createRIOCQ (some 7)), .step t (.session .go),
    .step t (.session .go), .env (.session (.acceptEx x)), .enter t (.session (.accepted x)),
    .step t (.session .go), .step t (.session .go), .step t (.session .go), .step t (.session .go)]

theorem queue_exists_iff_oneClient : ∃ s : ServiceConf Unit Unit,
    CreatesQueue s ∧ s.mem.mRioCQEventList = [7] ∧ QueueExists s := by
  have hr := Machine.reach_finalChecked (serviceMachine (T := Unit) (S := Unit)) connectsAfterStartup
    (serviceStart () .empty .empty .listenerService 1 (startupCalls 1 .listenerService))
    (acceptsOnQueue () ()) (by decide)
  exact ⟨_, ⟨(), (), [], by decide⟩, by decide,
    (queue_exists_iff (.refl _) hr).mpr (.inl ⟨rfl, by decide⟩)⟩

/-- Thread `t` starts a `ConnectService` up, whose session `x` connects. -/
def connectsWithoutQueue {T S : Type} (t : T) (x : S) : List (Action T (ServiceChoice T S)) :=
  [.step t (.session (.result true)), .step t (.create x), .step t (.session .go),
    .step t (.session (.result true)), .step t (.session .go), .step t (.session (.result true)),
    .step t (.session (.result true)), .step t (.session .go), .step t (.session .go),
    .step t (.session .go), .enter t (.session (.connected x)), .step t (.session .go),
    .step t (.session .go), .step t (.session .go), .step t (.session .go), .step t (.session .go)]

theorem connect_without_queue : ¬∀ (kind : ServiceKind) (networkThreadCount : Int)
    (calls : List StartupCall) (s : ServiceConf Unit Unit),
    calls.Perm (startupCalls networkThreadCount kind) →
    serviceMachine.Reach (fun s a => connectsAfterStartup s a = true)
      (serviceStart () .empty .empty kind 1 calls) s → QueueExists s := by
  intro claim
  have hr := Machine.reach_finalChecked (serviceMachine (T := Unit) (S := Unit)) connectsAfterStartup
    (serviceStart () .empty .empty .connectService 1 (startupCalls 8 .connectService))
    (connectsWithoutQueue () ()) (by decide)
  have hexists := claim .connectService 8 _ _ (.refl _) hr
  exact hexists ⟨(), (), [], by decide⟩ (by decide)

/-- Some `CreateRIOCQ` comes before `InitWorkerThread`. -/
def queueFirst : List StartupCall → Bool
  | [] | .initWorkerThread :: _ => false
  | .createRIOCQ :: _ => true
  | .start :: calls => queueFirst calls

theorem startupCalls_queueFirst {networkThreadCount : Int} (h : 1 ≤ networkThreadCount) :
    queueFirst (startupCalls networkThreadCount .listenerService) = true := by
  obtain ⟨n, hn⟩ : ∃ n, networkThreadCount.toNat = n + 1 := ⟨networkThreadCount.toNat - 1, by omega⟩
  simp [startupCalls, queueFirst, hn, List.replicate_succ]

section Order

/-- No thread dispatches completions before there is a queue. -/
structure OrderInv (s : ServiceConf T S) : Prop where
  first : ∀ t, ∀ f ∈ s.frames t, ∀ rest, f.rest = some rest → s.mem.mRioCQEventList = [] →
    queueFirst rest = true
  launched : s.mem.launched = true → s.mem.mRioCQEventList ≠ []
  connecting : ∀ t, ∀ f ∈ s.frames t, f.beforeQueue = true → s.mem.launched = true

theorem ServiceStep.order {t : T} {σ σ' : ServiceSystem T S} {f : ServiceFrame T S}
    {new : List (ServiceFrame T S)} (h : ServiceStep t σ f σ' new)
    (hfirst : ∀ rest, f.rest = some rest → σ.mRioCQEventList = [] → queueFirst rest = true)
    (hlaunched : σ.launched = true → σ.mRioCQEventList ≠ []) :
    (σ'.mRioCQEventList = [] → σ.mRioCQEventList = []) ∧
    (σ.launched = true → σ'.launched = true) ∧
    (σ'.launched = true → σ'.mRioCQEventList ≠ []) ∧
    ∀ g ∈ new, ∀ rest, g.rest = some rest → σ'.mRioCQEventList = [] → queueFirst rest = true := by
  -- the frame that takes the place of `f` has calls left which begin no later
  have left (g : ServiceFrame T S) {calls rest : List StartupCall} (hf : f.rest = some calls)
      (hg : g.rest = some rest) (hcalls : queueFirst calls = true → queueFirst rest = true) :
      ∀ g' ∈ [g], ∀ rest', g'.rest = some rest' → σ.mRioCQEventList = [] →
        queueFirst rest' = true := by
    intro g' hg' rest' hrest hempty
    obtain rfl := List.mem_singleton.mp hg'
    obtain rfl := Option.some.inj (hg.symm.trans hrest)
    exact hcalls (hfirst calls hf hempty)
  cases h with
  | session x f c system new h =>
    refine ⟨id, id, hlaunched, ?_⟩
    intro g hg rest hrest
    obtain ⟨g', hg', rfl⟩ := List.mem_map.mp hg
    cases hrest
  | ready => exact ⟨id, id, hlaunched, by simp⟩
  | failed f hf => exact ⟨id, id, hlaunched, by simp⟩
  | listen calls => exact ⟨id, id, hlaunched, left (.startup calls) rfl rfl id⟩
  | connect calls => exact ⟨id, id, hlaunched, left (.connectAll 0 calls) rfl rfl id⟩
  | create calls cq => simp
  | launch calls =>
    have hne : σ.mRioCQEventList ≠ [] := by
      intro hempty
      exact absurd (hfirst _ rfl hempty) (by simp [queueFirst])
    exact ⟨id, fun _ => rfl, fun _ => hne, fun _ _ _ _ hempty => absurd hempty hne⟩
  | connectOne i calls x =>
    refine ⟨id, id, hlaunched, ?_⟩
    intro g hg rest hrest hempty
    rcases List.mem_cons.mp hg with rfl | hg
    · cases hrest
    · exact left (.connected i calls) rfl rfl id g hg rest hrest hempty
  | connected i calls => exact ⟨id, id, hlaunched, left (.startup calls) rfl rfl id⟩
  | connectNext i calls => exact ⟨id, id, hlaunched, left (.connectAll (i + 1) calls) rfl rfl id⟩

variable [Fintype T]

theorem OrderInv.next {s s' : ServiceConf T S} {a : Action T (ServiceChoice T S)}
    (h : OrderInv s) (hs' : serviceMachine.next s a = some s') : OrderInv s' := by
  rcases Machine.next_cases hs' with ⟨t, c, mem, f, rfl, he, rfl⟩ |
    ⟨t, c, f, fs, mem, new, rfl, hs, he, rfl⟩ | ⟨c, mem, rfl, he, rfl⟩
  · obtain ⟨d, system, x, g, rfl, rfl, rfl, henter, hlaunched⟩ := serviceEnter_spec he
    refine ⟨?_, h.launched, ?_⟩
    · intro u f hf rest hrest
      rcases mem_push hf with rfl | hf
      · cases hrest
      · exact h.first u f hf rest hrest
    · intro u f hf hbefore
      rcases mem_push hf with rfl | hf
      · apply hlaunched
        rcases henter.beforeQueue hbefore with rfl | rfl <;> rfl
      · exact h.connecting u f hf hbefore
  · have hstep : ServiceStep t s.mem f mem new := serviceStep_spec he
    have hmem : f ∈ s.frames t := by
      rw [hs]
      exact List.mem_cons_self ..
    obtain ⟨hempty, hlaunch, hlist, hnew⟩ := hstep.order (h.first t f hmem) h.launched
    refine ⟨?_, hlist, ?_⟩
    · intro u g hg rest hrest hnil
      rcases mem_update new hg with ⟨_, hg⟩ | hother
      · exact hnew g hg rest hrest hnil
      · exact h.first u g (hother.mem hs) rest hrest (hempty hnil)
    · intro u g hg hbefore
      apply hlaunch
      rcases mem_update new hg with ⟨_, hg⟩ | hother
      · exact h.connecting t f hmem (hstep.beforeQueue g hg hbefore)
      · exact h.connecting u g (hother.mem hs) hbefore
  · obtain ⟨system, rfl⟩ := serviceEnv_spec he
    exact ⟨h.first, h.launched, h.connecting⟩

/-- In the order of `InitListener` the sessions may connect as soon as threads dispatch. -/
theorem queue_exists_inOrder {calls : List StartupCall} {t : T}
    {recvPool sendPool : RegisteredBufferPool T} {kind : ServiceKind} {maxSessionCount : Int}
    {s : ServiceConf T S} (hcalls : queueFirst calls = true)
    (h : serviceMachine.Reach (fun _ _ => True)
      (serviceStart t recvPool sendPool kind maxSessionCount calls) s) : QueueExists s := by
  have hinv : OrderInv s := by
    apply h.invariant OrderInv _ fun _ _ _ _ hi _ hs => hi.next hs
    refine ⟨?_, by simp [serviceStart], ?_⟩
    · intro u f hf rest hrest _
      rw [serviceStart_frames hf] at hrest
      cases hrest
      exact hcalls
    · intro u f hf hbefore
      rw [serviceStart_frames hf] at hbefore
      cases hbefore
  intro hcreates
  obtain ⟨u, x, fs, hs⟩ := hcreates
  apply hinv.launched
  exact hinv.connecting u (.session (x, .connect .createRIORQ)) (by simp [hs]) rfl

/-- `InitListener` has made a queue before it launches the threads that dispatch. -/
theorem queue_exists_initListener {networkThreadCount maxSessionCount : Int} {t : T}
    {recvPool sendPool : RegisteredBufferPool T} {s : ServiceConf T S}
    (hcount : 1 ≤ networkThreadCount)
    (h : serviceMachine.Reach (fun _ _ => True) (serviceStart t recvPool sendPool .listenerService
      maxSessionCount (startupCalls networkThreadCount .listenerService)) s) : QueueExists s :=
  queue_exists_inOrder (startupCalls_queueFirst hcount) h

end Order

end ServerCore.Network
