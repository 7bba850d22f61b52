import ServerCore.Network.RegisterSend
import ServerCore.Network.RejectedSend

namespace ServerCore.Network

open Framework ConcurrentQueue

variable {T S : Type} [DecidableEq T] [DecidableEq S]

def kickSendQueueSize : Int := 1000

/-- Each `RIOSend` is accepted and completes in full, and each batch fits. -/
def sendsServed (s : SystemConf T S) (a : Action T (Choice T S)) : Bool :=
  rioSendAccepted s a && sendsComplete s a && copiedFits s a

/-- `ProcessSend` does not test a backlog from the warning up to the kick limit. -/
def testsOutside (s : SystemConf T S) : Action T (Choice T S) → Bool
  | .step t .go =>
      match s.frames t with
      | (x, .send .kickTest) :: _ =>
          decide ((s.mem.session x).send.mPacketCount < warnSendQueueSize) ||
            decide (kickSendQueueSize ≤ (s.mem.session x).send.mPacketCount)
      | _ => true
  | _ => true

/-- A step that is served, and tests no backlog between the two sizes. -/
def servedOutside (s : SystemConf T S) (a : Action T (Choice T S)) : Bool :=
  sendsServed s a && testsOutside s a

/-- A test of a backlog by `ProcessSend`, with the `mPacketCount` that it saw. -/
inductive BacklogTest (S : Type) where
  /-- `Disconnect` was called for the backlog. -/
  | kick (x : S) (mPacketCount : Int)
  | goOn (x : S) (mPacketCount : Int)
  deriving DecidableEq

def BacklogTest.mPacketCount : BacklogTest S → Int
  | .kick _ n | .goOn _ n => n

/-- The test of a backlog that a step makes, judged by the state after it. -/
def backlogTests [Fintype T] (s : SystemConf T S) : Action T (Choice T S) → List (BacklogTest S)
  | .step t c =>
      match s.frames t, machine.next s (.step t c) with
      | (x, .send .kickTest) :: fs, some s' =>
          if s'.frames t = (x, .send .countTest) :: fs ∧
              (s'.mem.session x).mIsConnected = (s.mem.session x).mIsConnected then
            [.goOn x (s.mem.session x).send.mPacketCount]
          else [.kick x (s.mem.session x).send.mPacketCount]
      | _, _ => []
  | _ => []

/-- Every kick, and every `Disconnect` for a backlog, comes of a test at the kick limit; below it
`ProcessSend` went on. -/
structure KicksAtLimit (s : SystemConf T S) (log : List (BacklogTest S)) : Prop where
  kick : ∀ x n, .kick x n ∈ log → kickSendQueueSize ≤ n
  goOn : ∀ b ∈ log, b.mPacketCount < kickSendQueueSize → ∃ x n, b = .goOn x n
  disconnect : ∀ u x, (x, .disconnect (.disconnect .sendQueueSizeOver)) ∈ s.frames u →
    ∃ n, .kick x n ∈ log ∧ kickSendQueueSize ≤ n

section

variable [Fintype T]

/-- What the test of the backlog does. -/
theorem kickTest_next {s s' : SystemConf T S} {t : T} {c : Choice T S} {x : S}
    {fs : List (SessionFrame T S)} (hf : s.frames t = (x, .send .kickTest) :: fs)
    (hnext : machine.next s (.step t c) = some s') :
    c = .go ∧ (warnSendQueueSize ≤ (s.mem.session x).send.mPacketCount ∧
          s'.frames t = (x, .disconnect (.disconnect .sendQueueSizeOver)) :: fs ∧
          backlogTests s (.step t c) = [.kick x (s.mem.session x).send.mPacketCount] ∨
        (s.mem.session x).send.mPacketCount < warnSendQueueSize ∧
          s'.frames t = (x, .send .countTest) :: fs ∧
          backlogTests s (.step t c) = [.goOn x (s.mem.session x).send.mPacketCount]) := by
  have hnext' := hnext
  obtain ⟨mem, new, hstep, rfl⟩ := next_top hf hnext
  cases hstep with
  | send f c s' new h =>
    cases h with
    | kick hwarn => exact ⟨rfl, .inl ⟨hwarn, by simp, by simp [backlogTests, hf, hnext']⟩⟩
    | noKick hwarn => exact ⟨rfl, .inr ⟨hwarn, by simp, by simp [backlogTests, hf, hnext']⟩⟩

omit [Fintype T] in
/-- Only the test of the backlog calls `Disconnect` for a backlog. -/
theorem FrameStep.kickTest {x : S} {t : T} {σ σ' : System T S} {f : Frame T} {c : Choice T S}
    {new : List (Frame T)} (h : FrameStep x t σ f c σ' new)
    (hkick : .disconnect (.disconnect .sendQueueSizeOver) ∈ new) :
    f = .send .kickTest ∧ warnSendQueueSize ≤ (σ.session x).send.mPacketCount := by
  cases h with
  | send f c s' new h => cases h <;> simp_all
  | recv f c s' new h =>
    cases h with
    | recvFail n cause hcause =>
      obtain rfl : Cause.sendQueueSizeOver = cause := by simpa using hkick
      simp [Cause.ofSend] at hcause
    | _ => simp at hkick
  | connect f c σ' new h =>
    cases h with
    | assign pool b =>
      cases hb : (σ.session x).buffer pool <;> simp [releaseFrames, hb] at hkick
    | _ => simp at hkick
  | disconnect f c σ' new h => cases h <;> simp at hkick
  | destroy f c σ' new h =>
    cases h with
    | recvBuffer =>
      cases hb : (σ.session x).buffer .recv <;> simp [releaseFrames, hb] at hkick
    | sendBuffer =>
      cases hb : (σ.session x).buffer .send <;> simp [releaseFrames, hb] at hkick
    | _ => simp at hkick

/-- A `Disconnect` for a backlog was there before the step, or the step is a test that kicks. -/
theorem kicking_next {s s' : SystemConf T S} {a : Action T (Choice T S)} {u : T} {x : S}
    (hnext : machine.next s a = some s')
    (h : (x, .disconnect (.disconnect .sendQueueSizeOver)) ∈ s'.frames u) :
    (x, .disconnect (.disconnect .sendQueueSizeOver)) ∈ s.frames u ∨
      .kick x (s.mem.session x).send.mPacketCount ∈ backlogTests s a := by
  obtain ⟨this, hmove, _⟩ := next_move hnext
  cases hmove with
  | step t c f fs new mem hf hstep =>
    rcases mem_update _ h with ⟨rfl, hnew⟩ | hother
    · obtain ⟨g, hg, hgx⟩ := List.mem_map.mp hnew
      obtain ⟨rfl, rfl⟩ := Prod.mk.inj hgx
      obtain ⟨rfl, hwarn⟩ := hstep.kickTest hg
      obtain ⟨_, ⟨_, _, hlog⟩ | ⟨hlow, _⟩⟩ := kickTest_next hf hnext
      · exact .inr (by simp [hlog])
      · omega
    · exact .inl (hother.mem hf)
  | enter t c f mem hstep =>
    by_cases hu : u = t
    · subst hu
      simp only [Function.update_self, List.mem_cons] at h
      rcases h with heq | h
      · obtain ⟨rfl, rfl⟩ := Prod.mk.inj heq
        cases hstep
      · exact .inl h
    · simp only [Function.update_of_ne hu] at h
      exact .inl h
  | env c mem hstep => exact .inl h

/-- What a step records is the test of a backlog, which compares it with the warning size. -/
theorem backlogTests_next {s s' : SystemConf T S} {a : Action T (Choice T S)}
    (hnext : machine.next s a = some s') :
    (∃ x n, backlogTests s a = [.kick x n] ∧ warnSendQueueSize ≤ n ∧
      (testsOutside s a = true ↔ kickSendQueueSize ≤ n)) ∨
    (∃ x n, backlogTests s a = [.goOn x n] ∧ n < warnSendQueueSize ∧ testsOutside s a = true) ∨
    backlogTests s a = [] ∧ testsOutside s a = true := by
  cases a with
  | step t c =>
    by_cases htest : ∃ x fs, s.frames t = (x, .send .kickTest) :: fs
    · obtain ⟨x, fs, hf⟩ := htest
      obtain ⟨rfl, ⟨hwarn, _, hlog⟩ | ⟨hlow, _, hlog⟩⟩ := kickTest_next hf hnext
      · refine .inl ⟨x, _, hlog, hwarn, ?_⟩
        simp [testsOutside, hf, not_lt.mpr hwarn]
      · refine .inr (.inl ⟨x, _, hlog, hlow, ?_⟩)
        simp [testsOutside, hf, hlow]
    · push Not at htest
      refine .inr (.inr ⟨?_, ?_⟩)
      · simp only [backlogTests]
        split
        · next x fs s' hs _ => exact absurd hs (htest x fs)
        · rfl
      · cases c with
        | go => simp only [testsOutside]
        | _ => rfl
  | _ => exact .inr (.inr ⟨rfl, rfl⟩)

/-- A step that tests no backlog between the two sizes keeps the kick limit. -/
theorem KicksAtLimit.next {s s' : SystemConf T S} {a : Action T (Choice T S)}
    {log : List (BacklogTest S)} (h : KicksAtLimit s log) (hok : testsOutside s a = true)
    (hnext : machine.next s a = some s') : KicksAtLimit s' (log ++ backlogTests s a) := by
  have hsizes : warnSendQueueSize ≤ kickSendQueueSize := by decide
  have hkick (x : S) (n : Int) (hn : .kick x n ∈ backlogTests s a) : kickSendQueueSize ≤ n := by
    rcases backlogTests_next hnext with ⟨y, k, hlog, _, hiff⟩ | ⟨y, k, hlog, _⟩ | ⟨hlog, _⟩
    · obtain ⟨rfl, rfl⟩ : x = y ∧ n = k := by simpa [hlog] using hn
      exact hiff.mp hok
    · simp [hlog] at hn
    · simp [hlog] at hn
  refine ⟨?_, ?_, ?_⟩
  · intro x n hn
    rcases List.mem_append.mp hn with hn | hn
    · exact h.kick x n hn
    · exact hkick x n hn
  · intro b hb hlow
    rcases List.mem_append.mp hb with hb | hb
    · exact h.goOn b hb hlow
    · cases b with
      | kick x n =>
        have hle := hkick x n hb
        exact absurd hlow (not_lt.mpr hle)
      | goOn x n => exact ⟨x, n, rfl⟩
  · intro u x hx
    rcases kicking_next hnext hx with hbefore | hnow
    · obtain ⟨n, hn, hle⟩ := h.disconnect u x hbefore
      exact ⟨n, List.mem_append_left _ hn, hle⟩
    · exact ⟨_, List.mem_append_right _ hnow, hkick x _ hnow⟩

/-- A step that tests a backlog between the two sizes kicks too early. -/
theorem testsOutside_of_kicks {s s' : SystemConf T S} {a : Action T (Choice T S)}
    (h : ∀ x n, .kick x n ∈ backlogTests s a → kickSendQueueSize ≤ n)
    (hnext : machine.next s a = some s') : testsOutside s a = true := by
  rcases backlogTests_next hnext with ⟨x, n, hlog, _, hiff⟩ | ⟨_, _, _, _, hok⟩ | ⟨_, hok⟩
  · exact hiff.mpr (h x n (by simp [hlog]))
  · exact hok
  · exact hok

/-- A run keeps the kick limit just when it tests no backlog between the two sizes. -/
theorem kicks_at_limit (recvPool sendPool : RegisteredBufferPool T) (s : SystemConf T S)
    (log : List (BacklogTest S)) :
    (machine.Logged (fun s a => testsOutside s a = true) backlogTests
      (start recvPool sendPool) s log → KicksAtLimit s log) ∧
    (machine.Logged (fun _ _ => True) backlogTests (start recvPool sendPool) s log →
      KicksAtLimit s log → machine.Logged (fun s a => testsOutside s a = true) backlogTests
        (start recvPool sendPool) s log) := by
  constructor
  · intro h
    apply h.invariant (fun s log => KicksAtLimit s log) ⟨by simp, by simp, by simp [start]⟩
    intro s a s' log _ ih hok hnext
    exact ih.next hok hnext
  · intro h hlimit
    have hkick := hlimit.kick
    clear hlimit
    induction h with
    | start => exact .start
    | next hl _ hnext ih =>
      have hbefore := ih fun x n hn => hkick x n (List.mem_append_left _ hn)
      have hnow := testsOutside_of_kicks (fun x n hn => hkick x n (List.mem_append_right _ hn)) hnext
      exact .next hbefore hnow hnext

/-- A step that tests no backlog adds nothing to the log. -/
theorem Logged.silent {ok : SystemConf T S → Action T (Choice T S) → Prop}
    {s₀ s r : SystemConf T S} {log : List (BacklogTest S)} {a : Action T (Choice T S)}
    (h : machine.Logged ok backlogTests s₀ s log) (hok : ok s a)
    (hnext : machine.next s a = some r) (hlog : backlogTests s a = []) :
    machine.Logged ok backlogTests s₀ r log := by
  have hmore := h.next hok hnext
  rwa [hlog, List.append_nil] at hmore

/-- A step of the send path that neither copies, posts nor tests is served and records nothing. -/
theorem served_next {s₀ s : SystemConf T S} {log : List (BacklogTest S)} {t : T} {x : S}
    {f : SendFrame T} {fs : List (SessionFrame T S)}
    (h : machine.Logged (fun s a => servedOutside s a = true) backlogTests s₀ s log)
    (hf : s.frames t = (x, .send f) :: fs) (hcopy : ∀ start copied left, f ≠ .copy start copied left)
    (htest : f ≠ .kickTest) (side : SendSide T S) (new : List (Frame T))
    (hstep : sendStep x t (s.mem.session x).mIsConnected (s.mem.session x).send f .go =
      some (side, new)) :
    machine.Logged (fun s a => servedOutside s a = true) backlogTests s₀
      (withSend s x t side ((new.map fun g => (x, g)) ++ fs)) log := by
  have hserved : servedOutside s (.step t .go) = true := by
    simp only [servedOutside, sendsServed, rioSendAccepted, sendsComplete, copiedFits,
      testsOutside, hf]
    cases f with
    | copy start copied left => exact absurd rfl (hcopy start copied left)
    | kickTest => exact absurd rfl htest
    | _ => rfl
  have hsilent : backlogTests s (.step t .go) = [] := by
    simp only [backlogTests, hf]
    cases f with
    | kickTest => exact absurd rfl htest
    | _ => rfl
  exact Logged.silent h hserved (send_next hf hstep) hsilent

/-- The send side after `n` more calls of `Send` by thread `u`, none of which posted. -/
def SendSide.queued (side : SendSide T S) (u : T) (buffer : PacketPtr) (n : ℕ) : SendSide T S :=
  { side with
    mSendQueue := side.mSendQueue ++ List.replicate n (u, buffer)
    accepted := side.accepted ++ List.replicate n (u, buffer)
    mPacketCount := side.mPacketCount + n }

section

omit [DecidableEq T] [DecidableEq S] [Fintype T]

variable (side : SendSide T S) (u : T) (buffer : PacketPtr) (n : ℕ)

@[simp] theorem SendSide.queued_outstanding :
    (side.queued u buffer n).outstanding = side.outstanding := rfl

@[simp] theorem SendSide.queued_context :
    (side.queued u buffer n).mRioSendContext = side.mRioSendContext := rfl

@[simp] theorem SendSide.queued_buffer :
    (side.queued u buffer n).mSendBuffer = side.mSendBuffer := rfl

@[simp] theorem SendSide.queued_packetCount :
    (side.queued u buffer n).mPacketCount = side.mPacketCount + n := rfl

@[simp] theorem SendSide.queued_registered :
    (side.queued u buffer n).mSendRegistered = side.mSendRegistered := rfl

end

/-- While a send is registered a burst of `n` calls of `Send` adds `n` to the backlog. -/
theorem burst_reach {s₀ s : SystemConf T S} {log : List (BacklogTest S)} {u : T} {x : S}
    (buffer : PacketPtr) (n : ℕ)
    (h : machine.Logged (fun s a => servedOutside s a = true) backlogTests s₀ s log)
    (hu : s.frames u = []) (hc : (s.mem.session x).mIsConnected = true)
    (hd : (s.mem.session x).destroyed = false)
    (hr : (s.mem.session x).send.mSendRegistered = true) :
    machine.Logged (fun s a => servedOutside s a = true) backlogTests s₀
      (withSend s x u ((s.mem.session x).send.queued u buffer n) []) log := by
  induction n with
  | zero =>
    have hsame : withSend s x u ((s.mem.session x).send.queued u buffer 0) [] = s := by
      simp [withSend, SendSide.queued, System.set, ← hu]
    rwa [hsame]
  | succ n ih =>
    let σ := (s.mem.session x).send.queued u buffer n
    have hcall := Logged.silent (a := .enter u (.callSend x buffer)) ih rfl
      (r := withSend s x u σ [(x, .send (.send buffer))])
      (by simp [Machine.next, machine, enter, mayCall, withSend, hd, σ]) rfl
    have hsend := served_next hcall (withSend_frames _ _) (by simp) (by simp) σ
      [.send (.enqueue buffer)] (by simp [sendStep, hc])
    have henqueue := served_next hsend (withSend_frames _ _) (by simp) (by simp)
      { σ with
        mSendQueue := σ.mSendQueue.enqueue u buffer
        accepted := σ.accepted.enqueue u buffer }
      [.send .count] (by simp [sendStep])
    have hcount := served_next henqueue (withSend_frames _ _) (by simp) (by simp)
      ((s.mem.session x).send.queued u buffer (n + 1))
      [.send .exchange] (by
        simp [sendStep, σ, SendSide.queued, enqueue, List.replicate_succ', add_assoc])
    have hexchange := served_next hcount (withSend_frames _ _) (by simp) (by simp)
      ((s.mem.session x).send.queued u buffer (n + 1)) []
      (by simp [sendStep, SendSide.queued, hr])
    simpa using hexchange

/-- A thread that dispatches a completed send comes to the test of the backlog. -/
theorem sent_reach {s₀ s : SystemConf T S} {log : List (BacklogTest S)} {t : T} {x : S}
    {p : Post T} {b : NetworkBuffer} {n : ℕ}
    (h : machine.Logged (fun s a => servedOutside s a = true) backlogTests s₀ s log)
    (ht : s.frames t = []) (hpost : (s.mem.session x).send.outstanding = [p])
    (hn : p.region.length = n) (hpos : n ≠ 0)
    (hd : (s.mem.session x).send.mRioSendContext.mDispatcher = some x)
    (hb : (s.mem.session x).send.mSendBuffer = some b) :
    ∃ side, side.mPacketCount = (s.mem.session x).send.mPacketCount ∧
      machine.Logged (fun s a => servedOutside s a = true) backlogTests s₀
        (withSend s x t side [(x, .send .kickTest)]) log := by
  let σ := { (s.mem.session x).send with outstanding := [] }
  let processed : SendSide T S := { σ with
    mSendBuffer := some (b.onRead n).1.clean
    mRioSendContext := { σ.mRioSendContext with mDispatcher := none } }
  have hcall := Logged.silent (a := .enter t (.sent x n)) h
    (by simp [servedOutside, sendsServed, rioSendAccepted, sendsComplete, copiedFits, testsOutside,
      hpost, hn])
    (r := withSend s x t σ [(x, .send (.dispatch n))])
    (by simp [Machine.next, machine, enter, dequeues, rioDispatchResultCount, ht, hpost, hn,
      withSend, σ]) rfl
  have hdispatch := served_next hcall (withSend_frames _ _) (by simp) (by simp) σ
    [.send (.processSend n)] (by simp [sendStep, σ, hd])
  have hprocess := served_next hdispatch (withSend_frames _ _) (by simp) (by simp)
    processed [.send .onSend] (by simp [sendStep, σ, hb, hpos, processed])
  have hon := served_next hprocess (withSend_frames _ _) (by simp) (by simp)
    processed [.send .kickTest] (by simp [sendStep])
  exact ⟨processed, rfl, by simpa using hon⟩

end

/-- A send of three bytes is outstanding, and the threads are idle. -/
structure ThreePosted (s : SystemConf (Fin 2) Unit) : Prop where
  idle : ∀ t, s.frames t = []
  connected : (s.mem.session ()).mIsConnected = true
  alive : (s.mem.session ()).destroyed = false
  registered : (s.mem.session ()).send.mSendRegistered = true
  dispatcher : (s.mem.session ()).send.mRioSendContext.mDispatcher = some ()
  packetCount : (s.mem.session ()).send.mPacketCount = 0
  buffer : (s.mem.session ()).send.mSendBuffer.isSome = true
  regions : (s.mem.session ()).send.outstanding.map Post.region = [⟨2, 0, 3⟩]

theorem threePosted_reach : ∃ s : SystemConf (Fin 2) Unit,
    machine.Logged (fun s a => servedOutside s a = true) backlogTests smallStart s [] ∧
      ThreePosted s := by
  have hlogged := Machine.logged_finalChecked machine servedOutside backlogTests smallStart
    (connectRun 0 0 () ++ sendRun 1 () ⟨[1, 2, 3]⟩) (by decide)
  have hnone : machine.record backlogTests (smallStart : SystemConf (Fin 2) Unit)
      (connectRun 0 0 () ++ sendRun 1 () ⟨[1, 2, 3]⟩) = [] := by decide
  rw [hnone] at hlogged
  exact ⟨_, hlogged, by decide, by decide, by decide, by decide, by decide, by decide,
    by decide, by decide⟩

/-- A completed send comes to test a backlog of `n` packets. -/
structure Testing (n : ℕ) (s : SystemConf (Fin 2) Unit) : Prop where
  frames : s.frames 0 = [((), .send .kickTest)]
  connected : (s.mem.session ()).mIsConnected = true
  packetCount : (s.mem.session ()).send.mPacketCount = n

theorem testing_reach (n : ℕ) : ∃ s : SystemConf (Fin 2) Unit,
    machine.Logged (fun s a => servedOutside s a = true) backlogTests smallStart s [] ∧
      Testing n s := by
  obtain ⟨s, hposted, hthree⟩ := threePosted_reach
  obtain ⟨post, hpost, hregion⟩ := List.map_eq_singleton_iff.mp hthree.regions
  obtain ⟨b, hb⟩ := Option.isSome_iff_exists.mp hthree.buffer
  have hburst := burst_reach (some ⟨[1]⟩) n hposted (hthree.idle 1) hthree.connected hthree.alive
    hthree.registered
  obtain ⟨side, hcount, htest⟩ := sent_reach (t := 0) (x := ()) (n := 3) (p := post) (b := b)
    hburst
    (by simpa [withSend] using hthree.idle 0) (by simpa using hpost) (by simp [hregion])
    (by decide) (by simpa using hthree.dispatcher) (by simpa using hb)
  refine ⟨_, htest, withSend_frames _ _, ?_, ?_⟩
  · simpa using hthree.connected
  · simpa [hthree.packetCount] using hcount

/-- From the warning size on the test kicks. -/
theorem Testing.kicks {n : ℕ} {s : SystemConf (Fin 2) Unit} (h : Testing n s)
    (hwarn : warnSendQueueSize ≤ n) : ∃ s', machine.next s (.step 0 .go) = some s' ∧
      backlogTests s (.step 0 .go) = [.kick () n] := by
  have hkick : sendStep () 0 true (s.mem.session ()).send .kickTest .go =
      some ((s.mem.session ()).send, [.disconnect (.disconnect .sendQueueSizeOver)]) := by
    simp [sendStep, h.packetCount, hwarn]
  have hnext := send_next h.frames (by rw [h.connected]; exact hkick)
  obtain ⟨_, ⟨_, _, hlog⟩ | ⟨hlow, _⟩⟩ := kickTest_next h.frames hnext
  · exact ⟨_, hnext, by rw [hlog, h.packetCount]⟩
  · rw [h.packetCount] at hlow
    omega

theorem kicked_early : ¬∀ (s : SystemConf (Fin 2) Unit) (log : List (BacklogTest Unit)),
    machine.Logged (fun s a => sendsServed s a = true) backlogTests smallStart s log →
    KicksAtLimit s log := by
  intro claim
  obtain ⟨s, hlogged, htesting⟩ := testing_reach 500
  obtain ⟨s', hnext, hlog⟩ := htesting.kicks (by decide)
  have hbefore : machine.Logged (fun s a => sendsServed s a = true) backlogTests smallStart s [] :=
    hlogged.mono fun _ _ hok => (Bool.and_eq_true_iff.mp hok).1
  have hserved := hbefore.next (a := .step 0 .go)
    (by simp [sendsServed, rioSendAccepted, sendsComplete, copiedFits, htesting.frames]) hnext
  rw [hlog] at hserved
  have hle := (claim _ _ hserved).kick () 500 (by simp)
  exact absurd hle (by decide)

/-- A backlog of 1000 packets is kicked. -/
theorem kicks_at_limit_thousand : ∃ (s : SystemConf (Fin 2) Unit) (log : List (BacklogTest Unit)),
    log = [.kick () 1000] ∧ KicksAtLimit s log := by
  obtain ⟨s, hlogged, htesting⟩ := testing_reach 1000
  obtain ⟨s', hnext, hlog⟩ := htesting.kicks (by decide)
  have hbefore : machine.Logged (fun s a => testsOutside s a = true) backlogTests smallStart s [] :=
    hlogged.mono fun _ _ hok => (Bool.and_eq_true_iff.mp hok).2
  have houtside := hbefore.next (a := .step 0 .go)
    (by simp [testsOutside, htesting.frames, htesting.packetCount, kickSendQueueSize]) hnext
  rw [hlog] at houtside
  exact ⟨s', _, rfl, (kicks_at_limit _ _ _ _).1 houtside⟩

end ServerCore.Network
