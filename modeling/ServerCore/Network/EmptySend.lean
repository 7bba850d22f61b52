import ServerCore.Network.SendPath

namespace ServerCore.Network

open Framework ConcurrentQueue

variable {T S : Type} [DecidableEq T] [DecidableEq S]

/-- A packet that is queued and not yet counted. -/
def Frame.uncounted : Frame T → ℕ
  | .send .count => 1
  | _ => 0

/-- The packets that a `RegisterSend` has dequeued and not yet subtracted. -/
def Frame.inHand : Frame T → ℕ
  | .send (.copy _ copied left) => copied.length + left.length
  | _ => 0

/-- A `RegisterSend` that gave up its packets for want of room. -/
def Frame.overflowed : Frame T → ℕ
  | .disconnect (.disconnect .sendBufferOver) => 1
  | _ => 0

variable [Fintype T]

/-- `mPacketCount` counts the packets that are queued or in hand. -/
def Balanced (x : S) (s : SystemConf T S) : Prop :=
  (s.mem.session x).destroyed = false → (s.mem.session x).mIsConnected = true →
    (s.mem.session x).send.mPacketCount + count x Frame.uncounted s =
        (s.mem.session x).send.mSendQueue.length + count x Frame.inHand s ∨
      0 < count x Frame.overflowed s

variable {recvPool sendPool : RegisteredBufferPool T}
  {ok : SystemConf T S → Action T (Choice T S) → Prop} {s : SystemConf T S}

omit [DecidableEq T] in
theorem Untouched.balanced {x : S} (h : Untouched x s)
    (htoken : count x Frame.sendToken s = 0) :
    count x Frame.uncounted s = 0 ∧ count x Frame.inHand s = 0 := by
  have hsending := h.sending
  rw [count_eq_zero] at htoken hsending ⊢
  rw [count_eq_zero]
  constructor
  · intro u f hf
    have hone := hsending u f hf
    cases f with
    | send f => cases f <;> simp [Frame.sending, Frame.uncounted] at hone ⊢
    | _ => rfl
  · intro u f hf
    have hone := htoken u f hf
    cases f with
    | send f => cases f <;> simp [Frame.sendToken, SendFrame.token, Frame.inHand] at hone ⊢
    | _ => rfl

omit [DecidableEq T] [Fintype T] in
theorem measures_of_inSend {f : Frame T} (h : f.inSend = false) :
    f.uncounted = 0 ∧ f.inHand = 0 ∧ f.overflowed = 0 := by
  cases f with
  | send f => simp [Frame.inSend] at h
  | disconnect f =>
    cases f with
    | disconnect cause =>
      cases cause <;> simp [Frame.inSend, Cause.ofSend] at h <;> exact ⟨rfl, rfl, rfl⟩
    | _ => exact ⟨rfl, rfl, rfl⟩
  | _ => exact ⟨rfl, rfl, rfl⟩

omit [DecidableEq S] [Fintype T] in
/-- A step of the send path moves packets between the queue, the hands of `RegisterSend` and the
count, unless it gives up for want of room. -/
theorem SendStep.balanced {this : S} {t : T} {connected : Bool} {s s' : SendSide T S}
    {f : SendFrame T} {c : Choice T S} {new : List (Frame T)}
    (h : SendStep this t connected s f c s' new) :
    s'.mPacketCount + stackWeight Frame.uncounted new +
        (s.mSendQueue.length + (Frame.send f).inHand : ℕ) =
      s.mPacketCount + (Frame.send f).uncounted +
        (s'.mSendQueue.length + stackWeight Frame.inHand new : ℕ) ∨
      0 < stackWeight Frame.overflowed new := by
  cases h with
  | copyOver => exact .inr Nat.one_pos
  | enqueue buffer =>
    apply Or.inl
    simp only [stackWeight_cons, stackWeight_nil, Frame.uncounted, Frame.inHand, ConcurrentQueue.enqueue,
      List.length_append, List.length_singleton]
    omega
  | dequeue caller producers b xs rest _ hbulk _ =>
    have hlen := (takeBulk_spec hbulk).1.length_eq
    rw [List.length_append] at hlen
    apply Or.inl
    simp only [stackWeight_cons, stackWeight_nil, Frame.uncounted, Frame.inHand, List.length_nil]
    omega
  | count | copyNull | copyPacket | fetchSub =>
    apply Or.inl
    simp only [stackWeight_cons, stackWeight_nil, Frame.uncounted, Frame.inHand,
      List.length_append, List.length_cons, List.length_nil]
    omega
  | _ => exact .inl rfl

theorem balanced_step {x : S} {t : T} {c : Choice T S} {f : Frame T} {fs : List (SessionFrame T S)}
    {new : List (Frame T)} {mem : System T S}
    (hr : machine.Reach ok (start recvPool sendPool) s) (hf : s.frames t = (x, f) :: fs)
    (hstep : FrameStep x t s.mem f c mem new) (hs : Balanced x s) :
    Balanced x ⟨mem, Function.update s.frames t ((new.map fun g => (x, g)) ++ fs)⟩ := by
  intro hlive hconn
  have huncounted := count_step x hf mem new Frame.uncounted
  have hhand := count_step x hf mem new Frame.inHand
  have hover := count_step x hf mem new Frame.overflowed
  have heffect := hstep.sendSide
  have hlive' : (s.mem.session x).destroyed = false := hstep.destroyed ▸ hlive
  have hold : f ≠ .connect .processConnect →
      (s.mem.session x).send.mPacketCount + count x Frame.uncounted s =
        (s.mem.session x).send.mSendQueue.length + count x Frame.inHand s ∨
      0 < count x Frame.overflowed s := fun hne => hs hlive' (hstep.connected hne hconn)
  have hstart : f = .connect .processConnect →
      (s.mem.session x).send.mPacketCount + count x Frame.uncounted s =
        (s.mem.session x).send.mSendQueue.length + count x Frame.inHand s := by
    rintro rfl
    have hu := untouched_of_processConnect hr hf
    have hle := sendToken_le hr x
    simp only [Potential.total, sendToken, hu.registered, Bool.false_eq_true, if_false] at hle
    obtain ⟨hzero, hzero'⟩ := hu.balanced (by omega)
    simp [hu.packetCount, hu.queue, hzero, hzero']
  have hkick : ∀ cause, f ≠ .disconnect (.disconnect cause) := by
    rintro cause rfl
    cases hstep with
    | disconnect f c σ' new h => cases h <;> simp at hconn
  simp only [if_true] at huncounted hhand hover
  simp only at hconn ⊢
  generalize count x Frame.uncounted
    (⟨mem, Function.update s.frames t ((new.map fun g => (x, g)) ++ fs)⟩ : SystemConf T S) = n
    at huncounted ⊢
  generalize count x Frame.inHand
    (⟨mem, Function.update s.frames t ((new.map fun g => (x, g)) ++ fs)⟩ : SystemConf T S) = m
    at hhand ⊢
  generalize count x Frame.overflowed
    (⟨mem, Function.update s.frames t ((new.map fun g => (x, g)) ++ fs)⟩ : SystemConf T S) = k
    at hover ⊢
  generalize (mem.session x).send = s' at heffect ⊢
  cases heffect with
  | send f c s' new h =>
    have hzero : (Frame.send f : Frame T).overflowed = 0 := rfl
    have hbefore := hold (by simp)
    have hmoved := h.balanced
    omega
  | packetCount c =>
    have hdead := ((lifetime_reach hr x).2 t _ (hf ▸ List.mem_cons_self)).2 rfl
    simp [hlive'] at hdead
  | buffer f c b new hne hnew _ =>
    have hzero : stackWeight Frame.uncounted new = 0 ∧ stackWeight Frame.inHand new = 0 ∧
        stackWeight Frame.overflowed new = 0 :=
      ⟨stackWeight_eq_zero fun g hg => (measures_of_inSend (hnew g hg)).1,
        stackWeight_eq_zero fun g hg => (measures_of_inSend (hnew g hg)).2.1,
        stackWeight_eq_zero fun g hg => (measures_of_inSend (hnew g hg)).2.2⟩
    have hnone : f.uncounted = 0 ∧ f.inHand = 0 ∧ f.overflowed = 0 := by
      apply measures_of_inSend
      cases f with
      | send f => exact absurd rfl (hne f)
      | disconnect f =>
        cases f with
        | disconnect cause => exact absurd rfl (hkick cause)
        | _ => rfl
      | _ => rfl
    simp only
    by_cases hopen : f = .connect .processConnect
    · have hzero := hstart hopen
      exact .inl (by omega)
    · exact (hold hopen).imp (fun h => by omega) fun h => by omega

theorem balanced_reach (h : machine.Reach ok (start recvPool sendPool) s) (x : S) :
    Balanced x s := by
  refine h.invariant (Balanced x) (fun _ hconn => ?_) ?_
  · simp [start, System.start, Session.construct] at hconn
  · intro s a s' hr hs _ hnext
    rcases next_view x hnext with hmove | hother
    · cases hmove with
      | step t c f fs new mem hf hstep => exact balanced_step hr hf hstep hs
      | enter t c f mem hstep =>
        obtain ⟨hc, _, hq, hp, _⟩ := hstep.flags
        have huncounted := count_enter x x s t f mem Frame.uncounted
        have hhand := count_enter x x s t f mem Frame.inHand
        have hover := count_enter x x s t f mem Frame.overflowed
        have hzero : f.uncounted = 0 ∧ f.inHand = 0 ∧ f.overflowed = 0 := by
          cases hstep <;> exact ⟨rfl, rfl, rfl⟩
        intro hlive hconn
        have hold := hs (hstep.not_destroyed hlive) (hc ▸ hconn)
        simp only [if_true, hzero, Nat.add_zero] at huncounted hhand hover
        rw [huncounted, hhand, hover]
        simpa only [hq, hp] using hold
      | env c mem hstep =>
        obtain ⟨_, _, he, _⟩ := hstep.session x
        simp only [Balanced, he, count] at hs ⊢
        exact hs
    · simp only [Balanced, hother.session, hother.count] at hs ⊢
      exact hs

/-- The pointer is not null and its packet has bytes to write. -/
def positivePacket : PacketPtr → Bool
  | none => false
  | some packet => decide (0 < packet.writeSize)

/-- `Send` is called with a packet of positive size. -/
def sendsPositive (_ : SystemConf T S) : Action T (Choice T S) → Bool
  | .enter _ (.callSend _ buffer) => positivePacket buffer
  | _ => true

/-- The dequeue of a `RegisterSend` that `Send` called finds a packet. -/
def sendDequeuesSome (s : SystemConf T S) : Action T (Choice T S) → Bool
  | .step t (.take _) =>
      match s.frames t with
      | (x, .send (.dequeue .send)) :: _ => !(s.mem.session x).send.mSendQueue.isEmpty
      | _ => true
  | _ => true

/-- A batch with bytes to send. -/
def Batch (packets : ConcurrentQueue T PacketPtr) : Prop :=
  packets ≠ [] ∧ ∀ e ∈ packets, positivePacket e.2 = true

def SendFrame.Supplied (connected : Bool) (s : SendSide T S) : SendFrame T → Prop
  | .send buffer | .enqueue buffer => positivePacket buffer = true
  | .register .processSend => connected = true → s.mSendQueue ≠ []
  | .prepare .processSend | .dequeue .processSend => s.mSendQueue ≠ []
  | .copy _ copied left => Batch (copied ++ left)
  | .post _ swapList => Batch swapList
  | _ => True

/-- Every batch has bytes to send. -/
def supplied : Assertion T S where
  session s := (∀ e ∈ s.send.mSendQueue, positivePacket e.2 = true) ∧
    ∀ post ∈ s.send.posted, Batch post.packets
  frame s f := ∀ g, f = .send g → g.Supplied s.mIsConnected s.send

/-- When `ProcessSend` finds a positive `mPacketCount`, a packet is queued. -/
theorem queue_of_packetCount (h : machine.Reach ok (start recvPool sendPool) s) {x : S} {t : T}
    {fs : List (SessionFrame T S)} (hf : s.frames t = (x, .send .countTest) :: fs)
    (hconn : (s.mem.session x).mIsConnected = true)
    (hpos : 0 < (s.mem.session x).send.mPacketCount) :
    (s.mem.session x).send.mSendQueue ≠ [] := by
  have hlive := ((lifetime_reach h x).2 t _ (hf ▸ List.mem_cons_self)).1 rfl
  have honly {u : T} {g : Frame T} (hg : (x, g) ∈ s.frames u) :=
    only_sender h hf hg (by simp [Frame.sendToken, SendFrame.token])
  have hhand : count x Frame.inHand s = 0 := by
    apply count_eq_zero.mpr
    intro u g hg
    by_contra hne
    have htoken : 0 < g.sendToken := by
      cases g with
      | send g => cases g <;> simp [Frame.inHand, Frame.sendToken, SendFrame.token] at hne ⊢
      | _ => simp [Frame.inHand] at hne
    simp [honly hg htoken, Frame.inHand] at hne
  have hover : count x Frame.overflowed s = 0 := by
    apply count_eq_zero.mpr
    intro u g hg
    by_contra hne
    have htoken : 0 < g.sendToken := by
      cases g with
      | disconnect g =>
        cases g with
        | disconnect cause =>
          cases cause <;> simp [Frame.overflowed, Frame.sendToken, Cause.ofSend] at hne ⊢
        | _ => simp [Frame.overflowed] at hne
      | _ => simp [Frame.overflowed] at hne
    simp [honly hg htoken, Frame.overflowed] at hne
  rcases balanced_reach h x hlive hconn with heq | hlost
  · intro hnil
    rw [hnil, hhand] at heq
    simp at heq
    omega
  · omega

omit [DecidableEq S] [Fintype T] in
theorem SendStep.supplied {this : S} {t : T} {connected : Bool} {s s' : SendSide T S}
    {f : SendFrame T} {c : Choice T S} {new : List (Frame T)}
    (h : SendStep this t connected s f c s' new)
    (hqueue : ∀ e ∈ s.mSendQueue, positivePacket e.2 = true)
    (hposted : ∀ post ∈ s.posted, Batch post.packets) (hf : f.Supplied connected s)
    (hdequeue : f = .dequeue .send → s.mSendQueue ≠ [])
    (hcount : f = .countTest → connected = true → 0 < s.mPacketCount → s.mSendQueue ≠ []) :
    ((∀ e ∈ s'.mSendQueue, positivePacket e.2 = true) ∧
        ∀ post ∈ s'.posted, Batch post.packets) ∧
      ∀ g, Frame.send g ∈ new → g.Supplied connected s' := by
  cases h with
  | accept buffer _ => exact ⟨⟨hqueue, hposted⟩, by simpa [SendFrame.Supplied] using hf⟩
  | enqueue buffer =>
    refine ⟨⟨?_, hposted⟩, by simp [SendFrame.Supplied]⟩
    intro e he
    rcases List.mem_append.mp he with he | he
    · exact hqueue e he
    · rw [List.mem_singleton.mp he]
      exact hf
  | register caller hc =>
    refine ⟨⟨hqueue, hposted⟩, ?_⟩
    cases caller with
    | send => simp [SendFrame.Supplied]
    | processSend => simpa [SendFrame.Supplied] using hf hc
  | prepare caller b hb =>
    refine ⟨⟨hqueue, hposted⟩, ?_⟩
    cases caller with
    | send => simp [SendFrame.Supplied]
    | processSend => simpa [SendFrame.Supplied] using hf
  | dequeue caller producers b xs rest hb hbulk hnil =>
    have hperm := (takeBulk_spec hbulk).1
    have hsome : s.mSendQueue ≠ [] := by
      cases caller with
      | send => exact hdequeue rfl
      | processSend => exact hf
    refine ⟨⟨fun e he => hqueue e (hperm.mem_iff.mpr (by simp [he])), hposted⟩, ?_⟩
    simp only [List.mem_singleton, Frame.send.injEq, forall_eq, SendFrame.Supplied, List.nil_append]
    exact ⟨fun hx => hsome (hnil hx), fun e he => hqueue e (hperm.mem_iff.mpr (by simp [he]))⟩
  | copyNull start copied p left =>
    exact ⟨⟨hqueue, hposted⟩, by simpa [SendFrame.Supplied] using hf⟩
  | copyPacket start copied p packet left b hb hfit =>
    exact ⟨⟨hqueue, hposted⟩, by simpa [SendFrame.Supplied] using hf⟩
  | fetchSub start copied => exact ⟨⟨hqueue, hposted⟩, by simpa [SendFrame.Supplied] using hf⟩
  | post start swapList b hb =>
    refine ⟨⟨hqueue, ?_⟩, by simp⟩
    intro post hpost
    rcases List.mem_append.mp hpost with hpost | hpost
    · exact hposted post hpost
    · rw [List.mem_singleton.mp hpost]
      exact hf
  | countMore hpos =>
    refine ⟨⟨hqueue, hposted⟩, ?_⟩
    simpa [SendFrame.Supplied] using fun hc => hcount rfl hc hpos
  | _ => exact ⟨⟨hqueue, hposted⟩, by simp [SendFrame.Supplied]⟩

omit [DecidableEq T] [DecidableEq S] [Fintype T] in
theorem SendFrame.Supplied.mono {connected connected' : Bool} {s s' : SendSide T S}
    {g : SendFrame T} (hg : g.Supplied connected s) (hc : connected' = true → connected = true)
    (hq : s.mSendQueue ≠ [] → s'.mSendQueue ≠ []) : g.Supplied connected' s' := by
  cases g with
  | register caller =>
    cases caller with
    | send => trivial
    | processSend => exact fun hconn => hq (hg (hc hconn))
  | prepare caller | dequeue caller =>
    cases caller with
    | send => trivial
    | processSend => exact hq hg
  | _ => exact hg

omit [DecidableEq S] [Fintype T] in
/-- A step without the send token takes nothing from the queue. -/
theorem SendStep.queue_kept {this : S} {t : T} {connected : Bool} {s s' : SendSide T S}
    {f : SendFrame T} {c : Choice T S} {new : List (Frame T)}
    (h : SendStep this t connected s f c s' new) (hf : f.token = 0) :
    s.mSendQueue ≠ [] → s'.mSendQueue ≠ [] := by
  cases h with
  | enqueue buffer => simp [ConcurrentQueue.enqueue]
  | refuse | accept | count | win | lose => exact id
  | _ => simp [SendFrame.token] at hf

theorem supplied_reach (hok : ∀ s a, ok s a → sendsPositive s a = true ∧
    sendDequeuesSome s a = true) (h : machine.Reach ok (start recvPool sendPool) s) (x : S) :
    supplied.Holds x s := by
  refine Assertion.reach h ?init ?step ?beside ?enter ?env
  case init => simp [supplied, Session.construct]
  case step =>
    intro s t c f fs mem new hr hallowed hf hstep hs htop
    have heffect := hstep.sendSide
    have hsame : ∀ g, f = .send g →
        (mem.session x).mIsConnected = (s.mem.session x).mIsConnected := by
      rintro g rfl
      cases hstep
      simp
    simp only [supplied] at hs htop ⊢
    generalize (mem.session x).mIsConnected = connected at hsame ⊢
    generalize (mem.session x).send = s' at heffect ⊢
    cases heffect with
    | send f c s' new h =>
      have hdequeue : f = .dequeue .send → (s.mem.session x).send.mSendQueue ≠ [] := by
        rintro rfl
        cases h with
        | dequeue _ producers b xs rest _ _ _ =>
          have hsome := (hok _ _ hallowed).2
          simpa [sendDequeuesSome, hf] using hsome
      have hcount : f = .countTest → (s.mem.session x).mIsConnected = true →
          0 < (s.mem.session x).send.mPacketCount → (s.mem.session x).send.mSendQueue ≠ [] := by
        rintro rfl
        exact queue_of_packetCount hr hf
      obtain ⟨hs', hnew⟩ := h.supplied hs.1 hs.2 (htop f rfl) hdequeue hcount
      rw [hsame f rfl]
      exact ⟨hs', fun g hg g' hg' => hnew g' (hg' ▸ hg)⟩
    | packetCount c => exact ⟨hs, by simp⟩
    | buffer f c b new _ hnew _ =>
      refine ⟨hs, ?_⟩
      intro g hg g' hg'
      have hout := hnew g hg
      simp [hg', Frame.inSend] at hout
  case beside =>
    intro s t c f fs mem new u g hr hf hmem hstep hb htop hg g' hg'
    subst hg'
    have hsupplied := hg g' rfl
    by_cases htoken : g'.token = 0
    · cases g' <;> first | exact hsupplied | simp [SendFrame.token] at htoken
    · have hset := (registered_of_token hr hmem (Nat.pos_of_ne_zero htoken)).1
      have hle := (hb sendToken).trans (sendToken_le hr x)
      refine hsupplied.mono (hstep.connected ?_) ?_
      · rintro rfl
        simp [(untouched_of_processConnect hr hf).registered] at hset
      · have heffect := hstep.sendSide
        generalize (mem.session x).send = s' at heffect ⊢
        cases heffect with
        | send f c s' new h =>
          simp only [sendToken, Frame.sendToken] at hle
          exact h.queue_kept (by omega)
        | packetCount c => exact id
        | buffer f c b new _ _ _ => exact id
  case enter =>
    intro s t c f mem hr hallowed hstep hs
    obtain ⟨hc, _, hq, _⟩ := hstep.flags
    have hposted : (mem.session x).send.posted = (s.mem.session x).send.posted := by
      cases hstep <;> simp
    simp only [supplied, hq, hposted] at hs ⊢
    refine ⟨hs, ?_, fun u g _ hg g' hg' =>
      (hg g' hg').mono (by rw [hc]; exact id) (by rw [hq]; exact id)⟩
    rintro g rfl
    cases hstep with
    | send this buffer _ => exact (hok _ _ hallowed).1
    | sent => trivial
  case env =>
    intro s mem hstep hs
    obtain ⟨_, _, he, _⟩ := hstep.session x
    rw [he]
    exact ⟨hs, fun u g _ hg => hg⟩

/-- Every `RIOSend` of the session is posted with bytes. -/
def NoEmptySend (x : S) (s : SystemConf T S) : Prop :=
  (∀ u start swapList, (x, .send (.post start swapList)) ∈ s.frames u →
    0 < (s.mem.session x).send.mRioSendContext.region.length) ∧
  ∀ post ∈ (s.mem.session x).send.posted, 0 < post.region.length

omit [DecidableEq T] [Fintype T] in
theorem Batch.bytes {packets : ConcurrentQueue T PacketPtr} (h : Batch packets) :
    0 < (batchBytes packets).length := by
  obtain ⟨hne, hpos⟩ := h
  cases packets with
  | nil => exact absurd rfl hne
  | cons e packets =>
    have hfirst := hpos e (by simp)
    obtain ⟨p, buffer⟩ := e
    cases buffer with
    | none => simp [positivePacket] at hfirst
    | some packet =>
      simp [positivePacket, Packet.writeSize] at hfirst
      simp only [batchBytes, List.flatMap_cons, packetBytes, List.length_append]
      omega

/-- A `RegisterSend` that dequeues nothing posts a send without bytes. -/
theorem empty_of_dequeue (hpool : ∀ e ∈ sendPool.mQueue, e.2.Valid sendBufferSize)
    (h : machine.Reach ok (start recvPool sendPool) s) {s' : SystemConf T S} {t : T} {x : S}
    {caller : Caller} {producers : List T} {fs : List (SessionFrame T S)}
    (hf : s.frames t = (x, .send (.dequeue caller)) :: fs)
    (hnext : machine.next s (.step t (.take producers)) = some s')
    (hnil : (s.mem.session x).send.mSendQueue = []) :
    ∃ s'', machine.next s' (.step t .go) = some s'' ∧ ¬NoEmptySend x s'' := by
  have hstream := (sendStream_reach hpool h x).2 t _ (hf ▸ List.mem_cons_self) _ rfl
  obtain ⟨b, hb, hfilled⟩ := hstream
  obtain ⟨mem, new, hstep, rfl⟩ := next_top hf hnext
  cases hstep with
  | send f c s' new hstep =>
    cases hstep with
    | dequeue caller producers b' xs rest hb' hbulk _ =>
      have hperm := (takeBulk_spec hbulk).1
      rw [hnil] at hperm
      obtain rfl : xs = [] := (List.append_eq_nil_iff.mp hperm.nil_eq.symm).1
      refine ⟨_, by simp [Machine.next, machine, step, sendStep]; rfl, ?_⟩
      intro hno
      have hpos := hno.1 t b'.mWritePos [] (by simp)
      simp [hfilled.region_eq] at hpos

/-- No empty send is posted in a run in which every `RegisterSend` called by `Send` dequeues a
packet; and one that dequeues none posts an empty send. -/
theorem no_empty_send (recvPool : RegisteredBufferPool T) (allocated : Bool)
    (registered : Option ℕ) (t : T) (size : ℕ) :
    (∀ (s : SystemConf T S) (x : S),
      machine.Reach (fun s a => sendsPositive s a = true ∧ sendDequeuesSome s a = true)
        (start recvPool (.initializePool 32768 allocated registered t size)) s →
      NoEmptySend x s) ∧
    ∀ (s s' : SystemConf T S) (a : Action T (Choice T S)),
      machine.Reach (fun s a => sendsPositive s a = true)
        (start recvPool (.initializePool 32768 allocated registered t size)) s →
      machine.next s a = some s' → sendDequeuesSome s a = false →
      ∃ x u s'', machine.next s' (.step u .go) = some s'' ∧ ¬NoEmptySend x s'' := by
  have hpool := RegisteredBufferPool.initializePool_valid 32768 allocated registered t size
  constructor
  · intro s x h
    have hsupplied := supplied_reach (fun _ _ hok => hok) h x
    have hstream := sendStream_reach hpool h x
    constructor
    · intro u start swapList hf
      obtain ⟨⟨b, _, hfilled⟩, _⟩ := hstream.2 u _ hf _ rfl
      have hbytes : Batch swapList := hsupplied.2 u _ hf _ rfl
      rw [hfilled.region_eq]
      simpa using hbytes.bytes
    · intro post hpost
      have hbytes : Batch post.packets := hsupplied.1.2 post hpost
      rw [(hstream.1.filled post hpost).region_eq]
      simpa using hbytes.bytes
  · intro s s' a hr hnext hbad
    cases a with
    | step u c =>
      cases c with
      | take producers =>
        cases hs : s.frames u with
        | nil => simp [sendDequeuesSome, hs] at hbad
        | cons g fs =>
          obtain ⟨x, g⟩ := g
          by_cases hg : g = .send (.dequeue .send)
          · subst hg
            simp only [sendDequeuesSome, hs, Bool.not_eq_false', List.isEmpty_iff] at hbad
            exact ⟨x, u, empty_of_dequeue hpool hr hs hnext hbad⟩
          · simp only [sendDequeuesSome, hs] at hbad
            split at hbad <;> simp_all
      | _ => simp [sendDequeuesSome] at hbad
    | _ => simp [sendDequeuesSome] at hbad

/-- Thread `t` posts the packet that thread `u` has counted, and clears `mSendRegistered` before
`u` takes it. -/
def postedBeforeExchange {T S : Type} (t u : T) (this : S) : List (Action T (Choice T S)) :=
  connectRun t t this ++ sendRun u this ⟨[1, 2, 3]⟩ ++
    [.enter u (.callSend this (some ⟨[4]⟩)), .step u .go, .step u .go, .step u .go] ++
    sentRun t this 3 ++ [.step t .go, .step t .go, .step t (.take [u]), .step t .go, .step t .go,
      .step t (.result true)] ++
    sentRun t this 1 ++ [.step t .go] ++
    [.step u .go, .step u .go, .step u .go, .step u (.take []), .step u .go,
      .step u (.result true)]

theorem empty_send_posted : ¬∀ s : SystemConf (Fin 2) Unit,
    machine.Reach (fun s a => sendsPositive s a = true) smallStart s → NoEmptySend () s := by
  intro claim
  have hr := Machine.reach_finalChecked machine sendsPositive smallStart
    (postedBeforeExchange 0 1 ()) (by decide)
  have h := (claim _ hr).2
  exact absurd h (by decide)

theorem no_empty_send_twoSends : ∃ s : SystemConf (Fin 2) Unit,
    (s.mem.session ()).send.posted.length = 2 ∧ NoEmptySend () s := by
  have hr := Machine.reach_finalChecked machine
    (fun s a => sendsPositive s a && sendDequeuesSome s a) smallStart
    (connectRun 0 0 () ++ sendRun 1 () ⟨[1, 2, 3]⟩ ++ sentRun 0 () 3 ++ [.step 0 .go] ++
      sendRun 1 () ⟨[4]⟩) (by decide)
  have hallowed := hr.mono fun _ _ hok => by simpa using hok
  exact ⟨_, by decide, (no_empty_send _ true (some 2) 0 1).1 _ () hallowed⟩

end ServerCore.Network
