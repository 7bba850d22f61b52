import ServerCore.Network.Listener
import ServerCore.Network.SendStream

namespace ServerCore.Network

open Framework

variable {T S : Type} [DecidableEq T] [DecidableEq S]

/-- `ProcessConnect` was called, and its `AddSession` has not run. -/
def Frame.adds : Frame T → ℕ
  | .connect .processConnect | .connect .addSession => 1
  | _ => 0

def ListenerFrame.adds : ListenerFrame T S → ℕ
  | .session (_, f) => f.adds
  | _ => 0

/-- The sessions that are about to be added. -/
def adding [Fintype T] (s : ListenerConf T S) : ℕ := weight ListenerFrame.adds s.frames

/-- The step calls `ProcessConnect`. -/
def callsConnect (s : ListenerConf T S) : Action T (ListenerChoice T S) → Bool
  | .step t c =>
      match s.frames t with
      | .getPeerName _ _ :: _ => decide (c = .session (.result true))
      | .session (x, .connect .dispatch) :: _ =>
          decide ((s.mem.system.session x).mConnectContext = some x)
      | _ => false
  | _ => false

/-- When `ProcessConnect` is called there is room in `mSessions` for its session. -/
def connectsBelow [Fintype T] (s : ListenerConf T S) (a : Action T (ListenerChoice T S)) : Bool :=
  !callsConnect s a || decide (s.mem.system.mSessions.card + adding s < s.mem.mMaxSessionCount)

/-- Clients are only accepted. -/
def acceptsOnly (_ : ListenerConf T S) : Action T (ListenerChoice T S) → Bool
  | .enter _ (.session (.callConnect _)) => false
  | _ => true

/-- A step adds no more sessions than were about to be added, unless it calls `ProcessConnect`. -/
theorem FrameStep.adds {this : S} {t : T} {σ σ' : System T S} {f : Frame T} {c : Choice T S}
    {new : List (Frame T)} (h : FrameStep this t σ f c σ' new) :
    σ'.mSessions.card + stackWeight Frame.adds new ≤ σ.mSessions.card + f.adds ∨
      f = .connect .dispatch ∧ (σ.session this).mConnectContext = some this ∧
        σ'.mSessions.card + stackWeight Frame.adds new = σ.mSessions.card + 1 := by
  cases h with
  | send f c s' new h => cases h <;> simp [Frame.adds, System.set]
  | recv f c s' new h => cases h <;> simp [Frame.adds, System.set]
  | connect f c σ' new h =>
    cases h with
    | dispatch hc => exact .inr ⟨rfl, hc, by simp [Frame.adds]⟩
    | addSession =>
      have hcard := Finset.card_insert_le this σ.mSessions
      exact .inl (by simpa [Frame.adds] using hcard)
    | assign pool b =>
      have hafter : (Frame.connect (afterAssign pool b) : Frame T).adds = 0 := by
        cases pool <;> cases b <;> rfl
      apply Or.inl
      simp [stackWeight_releaseFrames Frame.adds fun _ => rfl, hafter, System.set]
    | tryDequeue pool | useCount pool => cases pool <;> simp [Frame.adds, System.setPool]
    | _ => simp [Frame.adds, System.set]
  | disconnect f c σ' new h =>
    cases h with
    | releaseSession =>
      have hcard := Finset.card_erase_le (s := σ.mSessions) (a := this)
      exact .inl (by simpa [Frame.adds] using hcard)
    | _ => simp [Frame.adds, System.set]
  | destroy f c σ' new h =>
    cases h with
    | recvBuffer | sendBuffer =>
      apply Or.inl
      simp [stackWeight_releaseFrames Frame.adds fun _ => rfl, Frame.adds, System.set]
    | enqueue pool | useCount pool => cases pool <;> simp [Frame.adds, System.setPool]
    | _ => simp [Frame.adds, System.set]

omit [DecidableEq T] [DecidableEq S] in
@[simp] theorem stackWeight_adds (x : S) (new : List (Frame T)) :
    stackWeight ListenerFrame.adds (new.map fun g => .session (x, g)) =
      stackWeight Frame.adds new := by
  induction new with
  | nil => rfl
  | cons g new ih =>
    simp only [List.map_cons, stackWeight_cons, ih]
    rfl

/-- A step of the listener adds no more sessions than were about to be added, unless it calls
`ProcessConnect`. -/
theorem ListenerStep.adds {t : T} {σ σ' : ListenerSystem T S} {f : ListenerFrame T S}
    {c : ListenerChoice T S} {new : List (ListenerFrame T S)} (h : ListenerStep t σ f c σ' new) :
    σ'.system.mSessions.card + stackWeight ListenerFrame.adds new ≤
        σ.system.mSessions.card + f.adds ∨
      σ'.system.mSessions.card + stackWeight ListenerFrame.adds new =
          σ.system.mSessions.card + 1 ∧
        ((∃ x, f = .session (x, .connect .dispatch) ∧
            (σ.system.session x).mConnectContext = some x) ∨
          ∃ a x, f = .getPeerName a x ∧ c = .session (.result true)) := by
  cases h with
  | session x f c system new h =>
    rw [stackWeight_adds]
    rcases h.adds with hle | ⟨rfl, hc, heq⟩
    · exact .inl hle
    · exact .inr ⟨heq, .inl ⟨x, rfl, hc⟩⟩
  | create a x _ _ => exact .inl (by simp [ListenerFrame.adds, System.set, letGo_mSessions])
  | named a x =>
    refine .inr ⟨?_, .inr ⟨a, x, rfl, rfl⟩⟩
    simp [ListenerFrame.adds, Frame.adds, System.set]
  | _ => exact .inl (by simp [ListenerFrame.adds, ListenerSystem.setAccept])

theorem ListenerStep.mMaxSessionCount {t : T} {σ σ' : ListenerSystem T S} {f : ListenerFrame T S}
    {c : ListenerChoice T S} {new : List (ListenerFrame T S)} (h : ListenerStep t σ f c σ' new) :
    σ'.mMaxSessionCount = σ.mMaxSessionCount := by
  cases h <;> rfl

omit [DecidableEq T] in
/-- Entering a function adds no session. -/
theorem ListenerEnter.adds {σ σ' : ListenerSystem T S} {frames : T → List (SessionFrame T S)}
    {c : ListenerChoice T S} {f : ListenerFrame T S} (h : ListenerEnter σ frames c σ' f) :
    σ'.system.mSessions = σ.system.mSessions ∧ f.adds = 0 ∧
      σ'.mMaxSessionCount = σ.mMaxSessionCount := by
  cases h with
  | call c system x f hdirect he =>
    refine ⟨he.registries.1, ?_, rfl⟩
    cases he <;> first | rfl | simp [Choice.direct] at hdirect
  | connected x ok system y f he =>
    refine ⟨he.registries.1, ?_, rfl⟩
    cases he
    rfl
  | disconnected x ok system y f he =>
    refine ⟨he.registries.1, ?_, rfl⟩
    cases he
    rfl
  | accepted a ok _ => exact ⟨rfl, rfl, rfl⟩

variable [Fintype T]

/-- If each `ProcessConnect` finds room for its session, there are never more sessions than the
service was created for. -/
theorem sessions_le_max (t : T) (recvPool sendPool : RegisteredBufferPool T) (maxSessionCount : ℕ)
    {s : ListenerConf T S} (h : listenerMachine.Reach (fun s a => connectsBelow s a = true)
      (listenerStart t recvPool sendPool maxSessionCount) s) :
    s.mem.system.mSessions.card ≤ maxSessionCount := by
  suffices hinv : s.mem.system.mSessions.card + adding s ≤ maxSessionCount ∧
      s.mem.mMaxSessionCount = maxSessionCount by omega
  refine h.invariant (fun s => s.mem.system.mSessions.card + adding s ≤ maxSessionCount ∧
    s.mem.mMaxSessionCount = maxSessionCount) ⟨?_, rfl⟩ ?_
  · have hidle : adding (listenerStart (S := S) t recvPool sendPool maxSessionCount) = 0 := by
      apply (weight_eq_zero _ _).mpr
      intro u f hf
      rw [listenerStart_frames hf]
      rfl
    rw [hidle]
    exact Nat.zero_le _
  · intro s a s' _ hinv hok hnext
    obtain ⟨hle, hmax⟩ := hinv
    cases listener_move hnext with
    | enter t c f mem _ hstep =>
      obtain ⟨hsessions, hadds, hsame⟩ := hstep.adds
      have hframes := weight_push s.frames t hadds
      simp only [adding] at hle ⊢
      exact ⟨by rw [hsessions]; omega, hsame.trans hmax⟩
    | step t c f fs new mem hf hstep =>
      have hframes := weight_step ListenerFrame.adds hf new
      refine ⟨?_, hstep.mMaxSessionCount.trans hmax⟩
      rcases hstep.adds with hkept | ⟨hmore, hcalls⟩
      · simp only [adding] at hle ⊢
        omega
      · have hroom : s.mem.system.mSessions.card + adding s < s.mem.mMaxSessionCount := by
          rcases hcalls with ⟨x, rfl, hc⟩ | ⟨a, x, rfl, rfl⟩
          · simpa [connectsBelow, callsConnect, hf, hc] using hok
          · simpa [connectsBelow, callsConnect, hf] using hok
        simp only [adding] at hroom ⊢
        omega

/-- Thread `t` takes the completion of context 0, whose session is accepted, up to
`ProcessConnect`. -/
def acceptedRun {T S : Type} (t : T) : List (Action T (ListenerChoice T S)) :=
  [.enter t (.completed (.accept 0) true), .step t (.session .go), .step t (.session .go),
    .step t (.session (.result true)), .step t (.session (.result true))]

/-- `ProcessConnect` by thread `t`, with slices that thread `p` put into the pools. -/
def processConnectRun {T S : Type} (p t : T) : List (Action T (ListenerChoice T S)) :=
  [.go, .go, .go, .pop p, .go, .go, .go, .pop p, .go, .go, .result true, .go, .go, .go, .go, .go,
    .result true, .go].map fun c => .step t (.session c)

/-- The one context is armed with session `x`. -/
def armRun {T S : Type} (t : T) (x : S) : List (Action T (ListenerChoice T S)) :=
  [.step t (.create x), .step t (.session (.result true))]

/-- A first client is connected, and then a second one up to its `AddSession`. -/
def twoClients {T S : Type} (t : T) (x y : S) : List (Action T (ListenerChoice T S)) :=
  [.step t (.session .go)] ++ armRun t x ++ [.step t (.session .go)] ++ acceptedRun t ++
    processConnectRun t t ++ armRun t y ++ acceptedRun t ++
    [.step t (.session .go), .step t (.session .go)]

/-- A service for one session, with pools of one slice each. -/
def oneSession : ListenerConf Unit Bool :=
  listenerStart () (.initializePool 16384 true (some 1) () 1)
    (.initializePool 32768 true (some 2) () 1) 1

theorem max_exceeded : ¬∀ s : ListenerConf Unit Bool,
    listenerMachine.Reach (fun s a => acceptsOnly s a = true) oneSession s →
    s.mem.system.mSessions.card ≤ 1 := by
  intro claim
  have hr := Machine.reach_finalChecked listenerMachine acceptsOnly oneSession
    (twoClients () true false) (by decide)
  exact absurd (claim _ hr) (by decide)

/-- Here the first client is the only one. -/
theorem sessions_le_max_oneClient : ∃ s : ListenerConf Unit Bool,
    s.mem.system.mSessions = {true} ∧ s.mem.system.mSessions.card ≤ 1 := by
  have hr := Machine.reach_finalChecked listenerMachine connectsBelow oneSession
    ([.step () (.session .go)] ++ armRun () true ++ [.step () (.session .go)] ++ acceptedRun () ++
      processConnectRun () ()) (by decide)
  exact ⟨_, by decide, sessions_le_max () _ _ 1 hr⟩

end ServerCore.Network
