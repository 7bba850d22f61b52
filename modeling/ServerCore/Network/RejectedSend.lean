import ServerCore.Network.EmptySend

namespace ServerCore.Network

open Framework ConcurrentQueue

variable {T S : Type} [DecidableEq T] [DecidableEq S]

/-- What a session logs of its sends. With the start and the rejection of a `RegisterSend` go the
write and read positions of `mSendBuffer` and `mPacketCount` at that moment. -/
inductive SendEvent (T : Type) where
  | began (writePos readPos packetCount : Int)
  /-- `mPacketCount++` of a `Send`. -/
  | counted
  | rejected (writePos readPos packetCount : Int)
  | completed (post : Post T) (numOfBytes : ℕ)
  deriving DecidableEq

def Frame.sendEvent (s : SendSide T S) : Frame T → Option (SendEvent T)
  | .send (.prepare _) =>
      s.mSendBuffer.map fun b => .began b.mWritePos b.mReadPos s.mPacketCount
  | .send .count => some .counted
  | .send .unregister =>
      s.mSendBuffer.map fun b => .rejected b.mWritePos b.mReadPos s.mPacketCount
  | _ => none

/-- The log of the sends of all sessions. -/
def sendEvents (s : SystemConf T S) : Action T (Choice T S) → List (S × SendEvent T)
  | .enter _ (.sent x numOfBytes) =>
      (s.mem.session x).send.outstanding.head?.toList.map fun post =>
        (x, .completed post numOfBytes)
  | .step t _ =>
      match s.frames t with
      | [] => []
      | f :: _ => (f.2.sendEvent (s.mem.session f.1).send).toList.map fun e => (f.1, e)
  | _ => []

/-- The part of session `x` in a log. -/
def history (x : S) (log : List (S × SendEvent T)) : List (SendEvent T) :=
  (log.filter fun e => e.1 = x).map Prod.snd

/-- The sends that have completed. -/
def sent (h : List (SendEvent T)) : List (Post T) :=
  h.filterMap fun
    | .completed post _ => some post
    | _ => none

/-- What an event does to the positions and the count at the last start of a `RegisterSend`. -/
def SendEvent.resume (r : Option (Int × Int × Int)) : SendEvent T → Option (Int × Int × Int)
  | .began writePos readPos packetCount => some (writePos, readPos, packetCount)
  | .counted => r.map fun r => (r.1, r.2.1, r.2.2 + 1)
  | _ => r

/-- The positions and the packet count at the last start of a `RegisterSend`, with what the calls of
`Send` have counted since. -/
def begun (h : List (SendEvent T)) : Option (Int × Int × Int) := h.foldl SendEvent.resume none

/-- The frame carries the packet in a batch that was dequeued. -/
def Frame.carries (e : T × PacketPtr) : Frame T → ℕ
  | .send (.copy _ copied left) => (copied ++ left).count e
  | .send (.post _ swapList) => swapList.count e
  | _ => 0

/-- What a `RegisterSend` has copied. -/
def Frame.registering : Frame T → Option (ConcurrentQueue T PacketPtr)
  | .send (.dequeue _) | .send .rejected | .send .unregister => some []
  | .send (.copy _ copied _) => some copied
  | .send (.post _ swapList) => some swapList
  | _ => none

/-- A send completes in full. -/
def sendsComplete (s : SystemConf T S) : Action T (Choice T S) → Bool
  | .enter _ (.sent x numOfBytes) =>
      (s.mem.session x).send.outstanding.head?.all fun post =>
        decide ((numOfBytes : Int) = post.region.length)
  | _ => true

/-- A `RIOSend` that is rejected has no packets. -/
def rejectsEmpty (s : SystemConf T S) : Action T (Choice T S) → Bool
  | .step t (.result ok) =>
      match s.frames t with
      | (_, .send (.post _ swapList)) :: _ => ok || swapList.isEmpty
      | _ => true
  | _ => true

/-- After a rejection positions and count are as they were before that `RegisterSend`. -/
def Restored (h : List (SendEvent T)) : Prop :=
  ∀ before after writePos readPos packetCount,
    h = before ++ .rejected writePos readPos packetCount :: after →
      begun before = some (writePos, readPos, packetCount)

/-- The sends of session `x` lose nothing. -/
structure LosesNothing [Fintype T] (x : S) (s : SystemConf T S) (log : List (S × SendEvent T)) :
    Prop where
  /-- An accepted packet is queued, in the hands of a `RegisterSend`, posted or sent. -/
  kept : (s.mem.session x).mIsConnected = true → count x Frame.overflowed s = 0 →
    ∀ e, (s.mem.session x).send.accepted.count e =
      (s.mem.session x).send.mSendQueue.count e + count x (Frame.carries e) s +
        ((s.mem.session x).send.outstanding.flatMap Post.packets).count e +
        ((sent (history x log)).flatMap Post.packets).count e
  complete : ∀ post numOfBytes, .completed post numOfBytes ∈ history x log →
    numOfBytes = (batchBytes post.packets).length
  restored : Restored (history x log)

omit [DecidableEq T] in
@[simp] theorem history_nil (x : S) : history x ([] : List (S × SendEvent T)) = [] := rfl

omit [DecidableEq T] in
@[simp] theorem history_append (x : S) (log log' : List (S × SendEvent T)) :
    history x (log ++ log') = history x log ++ history x log' := by
  simp [history]

omit [DecidableEq T] in
@[simp] theorem history_map (x this : S) (es : List (SendEvent T)) :
    history x (es.map fun e => (this, e)) = if this = x then es else [] := by
  induction es with
  | nil => simp [history]
  | cons e es ih =>
    by_cases hx : this = x
    · simpa [history, hx] using ih
    · simp [history, hx]

omit [DecidableEq T] in
@[simp] theorem sent_append (h h' : List (SendEvent T)) : sent (h ++ h') = sent h ++ sent h' :=
  List.filterMap_append

omit [DecidableEq T] [DecidableEq S] in
theorem sendEvents_step {s : SystemConf T S} {t : T} {this : S} {f : Frame T}
    {fs : List (SessionFrame T S)} (hf : s.frames t = (this, f) :: fs) (c : Choice T S) :
    sendEvents s (.step t c) =
      (f.sendEvent (s.mem.session this).send).toList.map fun e => (this, e) := by
  simp only [sendEvents, hf]

omit [DecidableEq T] in
/-- Only a completion is logged on entering a function. -/
theorem EnterStep.logged {this : S} {s : SystemConf T S} {mem : System T S} {c : Choice T S}
    {f : Frame T} (h : EnterStep s.mem s.frames c mem this f) (t : T) :
    sendEvents s (.enter t c) = [] ∧ (mem.session this).send = (s.mem.session this).send ∧
        f.sendToken = 0 ∨
      ∃ n post rest, f = .send (.dispatch n) ∧ c = .sent this n ∧
        (s.mem.session this).send.outstanding = post :: rest ∧
        sendEvents s (.enter t c) = [(this, .completed post n)] ∧
        (mem.session this).send = { (s.mem.session this).send with outstanding := rest } := by
  cases h with
  | sent this n post rest ho _ =>
    exact .inr ⟨n, post, rest, rfl, rfl, ho, by simp [sendEvents, ho], by simp⟩
  | _ => exact .inl ⟨rfl, by simp, by simp [Frame.sendToken, SendFrame.token, Cause.ofSend]⟩

/-- What concerns another session is not logged for session `x`. -/
theorem Move.history_other {x this : S} {s s' : SystemConf T S} {a : Action T (Choice T S)}
    (h : Move this s a s') (hx : this ≠ x) : history x (sendEvents s a) = [] := by
  cases h with
  | step t c f fs new mem hf hstep => rw [sendEvents_step hf, history_map, if_neg hx]
  | enter t c f mem hstep =>
    rcases hstep.logged t with ⟨he, _⟩ | ⟨n, post, rest, _, _, _, he, _⟩
    · rw [he, history_nil]
    · rw [he]
      simp [history, hx]
  | env c mem hstep => rfl

omit [DecidableEq T] [DecidableEq S] in
theorem sent_sendEvent (s : SendSide T S) (f : Frame T) : sent (f.sendEvent s).toList = [] := by
  cases f with
  | send f =>
    cases f with
    | prepare caller => cases h : s.mSendBuffer <;> simp [Frame.sendEvent, h, sent]
    | unregister => cases h : s.mSendBuffer <;> simp [Frame.sendEvent, h, sent]
    | _ => rfl
  | _ => rfl

theorem carries_of_inSend (e : T × PacketPtr) {f : Frame T} (h : f.inSend = false) :
    f.carries e = 0 := by
  cases f with
  | send f => simp [Frame.inSend] at h
  | _ => rfl

omit [DecidableEq T] in
theorem Frame.registering_of_inSend {f : Frame T} (h : f.inSend = false) :
    f.registering = none := by
  cases f with
  | send f => simp [Frame.inSend] at h
  | _ => rfl

omit [DecidableEq T] in
theorem Frame.sendToken_of_registering {f : Frame T} {copied : ConcurrentQueue T PacketPtr}
    (h : f.registering = some copied) : f.sendToken = 1 := by
  cases f with
  | send f => cases f <;> first | rfl | simp [Frame.registering] at h
  | _ => simp [Frame.registering] at h

omit [DecidableEq T] in
theorem Frame.alive_of_registering {f : Frame T} {copied : ConcurrentQueue T PacketPtr}
    (h : f.registering = some copied) : f.alive = true := by
  cases f with
  | send f => cases f <;> first | rfl | simp [Frame.registering] at h
  | _ => simp [Frame.registering] at h

omit [DecidableEq T] in
theorem Restored.append {h : List (SendEvent T)} {e : SendEvent T} (hr : Restored h)
    (he : ∀ w r k, e = .rejected w r k → begun h = some (w, r, k)) : Restored (h ++ [e]) := by
  intro before after w r k heq
  rcases Machine.mem_grown heq with ⟨rfl, hlast⟩ | ⟨rest, hlog⟩
  · exact he w r k hlast
  · exact hr before rest w r k hlog

omit [DecidableEq T] in
theorem begun_append (h : List (SendEvent T)) (e : SendEvent T) :
    begun (h ++ [e]) = e.resume (begun h) := by
  simp only [begun, List.foldl_append, List.foldl_cons, List.foldl_nil]

section

variable [Fintype T]

/-- Each accepted packet is somewhere, unless the session is disconnected for its sends. -/
def Conserved (e : T × PacketPtr) (x : S) (s : SystemConf T S) (h : List (SendEvent T)) : Prop :=
  (s.mem.session x).send.accepted.count e =
      (s.mem.session x).send.mSendQueue.count e + count x (Frame.carries e) s +
        ((s.mem.session x).send.outstanding.flatMap Post.packets).count e +
        ((sent h).flatMap Post.packets).count e ∨
    0 < count x Frame.overflowed s ∨
      (s.mem.session x).mIsConnected = false ∧ connectToken.total x s = 0

variable {recvPool sendPool : RegisteredBufferPool T}
  {ok : SystemConf T S → Action T (Choice T S) → Prop} {s s' : SystemConf T S}
  {log : List (S × SendEvent T)}

/-- A session that was connected and disconnected stays so. -/
theorem closed_next {x : S} {a : Action T (Choice T S)} (hnext : machine.next s a = some s')
    (hc : (s.mem.session x).mIsConnected = false) (htoken : connectToken.total x s = 0) :
    (s'.mem.session x).mIsConnected = false ∧ connectToken.total x s' = 0 := by
  have hdec := connectToken_decreases.next x hnext
  refine ⟨?_, by omega⟩
  rcases next_view x hnext with hmove | hother
  · cases hmove with
    | step t c f fs new mem hf hstep =>
      have hopen : f ≠ .connect .processConnect := by
        rintro rfl
        have hshare := connectToken.le_total (hf ▸ List.mem_cons_self (l := fs))
        have hone : (connectToken : Potential T S).frame (.connect .processConnect) = 1 := rfl
        omega
      by_contra hne
      have hwas := hstep.connected hopen (by simpa using hne)
      simp [hc] at hwas
    | enter t c f mem hstep => exact hstep.flags.1.trans hc
    | env c mem hstep => exact (hstep.flags x).1.trans hc
  · rw [hother.session]
    exact hc

/-- Who sends finds that `ProcessConnect` was called. -/
theorem connected_of_token (h : machine.Reach ok (start recvPool sendPool) s) {x : S} {t : T}
    {f : Frame T} (hf : (x, f) ∈ s.frames t) (htoken : 0 < f.sendToken) :
    connectToken.total x s = 0 := by
  by_contra hne
  have hu := untouched_of_unconnected h x (by omega)
  have hset := (registered_of_token h hf htoken).1
  simp [hu.registered] at hset

theorem conserved_step {e : T × PacketPtr} {x : S} {t : T} {c : Choice T S} {f : Frame T}
    {fs : List (SessionFrame T S)} {new : List (Frame T)} {mem : System T S}
    {h : List (SendEvent T)} (hr : machine.Reach ok (start recvPool sendPool) s)
    (hok : rejectsEmpty s (.step t c) = true)
    (hnext : machine.next s (.step t c) = some
      ⟨mem, Function.update s.frames t ((new.map fun g => (x, g)) ++ fs)⟩)
    (hf : s.frames t = (x, f) :: fs) (hstep : FrameStep x t s.mem f c mem new)
    (hs : Conserved e x s h) :
    Conserved e x ⟨mem, Function.update s.frames t ((new.map fun g => (x, g)) ++ fs)⟩
      (h ++ (f.sendEvent (s.mem.session x).send).toList) := by
  have hsent : sent (h ++ (f.sendEvent (s.mem.session x).send).toList) = sent h := by
    rw [sent_append, sent_sendEvent, List.append_nil]
  have hcarries := count_step x hf mem new (Frame.carries e)
  have hover := count_step x hf mem new Frame.overflowed
  simp only [if_true] at hcarries hover
  rcases hs with hs | hs | ⟨hc, htoken⟩
  · simp only [Conserved, hsent]
    generalize count x Frame.overflowed
      (⟨mem, Function.update s.frames t ((new.map fun g => (x, g)) ++ fs)⟩ : SystemConf T S) = k
      at hover ⊢
    generalize count x (Frame.carries e)
      (⟨mem, Function.update s.frames t ((new.map fun g => (x, g)) ++ fs)⟩ : SystemConf T S) = n
      at hcarries ⊢
    have heffect := hstep.sendSide
    generalize (mem.session x).send = s' at heffect ⊢
    cases heffect with
    | send f c s' new h =>
      cases h with
      | enqueue buffer =>
        apply Or.inl
        simp [Frame.carries, ConcurrentQueue.enqueue] at *
        omega
      | dequeue caller producers b xs rest _ hbulk _ =>
        have hperm := (takeBulk_spec hbulk).1.count_eq e
        apply Or.inl
        simp [Frame.carries] at *
        omega
      | copyOver start copied p packet left b hb hfull =>
        refine .inr (.inl ?_)
        simp only [stackWeight_cons, stackWeight_nil, Frame.overflowed] at hover
        omega
      | reject start swapList b hb =>
        have hempty : swapList = [] := by simpa [rejectsEmpty, hf] using hok
        apply Or.inl
        simp [Frame.carries, hempty] at *
        omega
      | post start swapList b hb =>
        apply Or.inl
        simp [Frame.carries] at *
        omega
      | _ =>
        apply Or.inl
        simp [Frame.carries] at *
        omega
    | packetCount c =>
      apply Or.inl
      simp [Frame.carries] at *
      omega
    | buffer f c b new hne hnew _ =>
      have hzero : stackWeight (Frame.carries e) new = 0 :=
        stackWeight_eq_zero fun g hg => carries_of_inSend e (hnew g hg)
      have hnone : f.carries e = 0 := by
        cases f <;> first | rfl | exact absurd rfl (hne _)
      apply Or.inl
      simp only
      omega
  · by_cases hfull : f = .disconnect (.disconnect .sendBufferOver)
    · have htoken : connectToken.total x s = 0 :=
        connected_of_token hr (hf ▸ List.mem_cons_self) (by rw [hfull]; exact Nat.one_pos)
      have hdec := connectToken_decreases.next x hnext
      refine .inr (.inr ⟨?_, by omega⟩)
      subst hfull
      cases hstep with
      | disconnect f c σ' new h => cases h <;> simp
    · refine .inr (.inl ?_)
      have hzero : f.overflowed = 0 := by
        cases f with
        | disconnect f =>
          cases f with
          | disconnect cause => cases cause <;> first | rfl | exact absurd rfl hfull
          | _ => rfl
        | _ => rfl
      omega
  · exact .inr (.inr (closed_next hnext hc htoken))

/-- A `RegisterSend` that has copied nothing can be undone by clearing its context. -/
structure Resumes (x : S) (s : SystemConf T S) (h : List (SendEvent T)) : Prop where
  held : ∀ u f, (x, f) ∈ s.frames u → f.registering = some [] →
    ∃ b, (s.mem.session x).send.mSendBuffer = some b ∧
      begun h = some (b.mWritePos, b.mReadPos, (s.mem.session x).send.mPacketCount)
  restored : Restored h

theorem resumes_step {x : S} {t : T} {c : Choice T S} {f : Frame T}
    {fs : List (SessionFrame T S)} {new : List (Frame T)} {mem : System T S}
    {h : List (SendEvent T)} (hr : machine.Reach ok (start recvPool sendPool) s)
    (hok : rejectsEmpty s (.step t c) = true) (hf : s.frames t = (x, f) :: fs)
    (hstep : FrameStep x t s.mem f c mem new) (hs : Resumes x s h) :
    Resumes x ⟨mem, Function.update s.frames t ((new.map fun g => (x, g)) ++ fs)⟩
      (h ++ (f.sendEvent (s.mem.session x).send).toList) := by
  have htop := hs.held t f (hf ▸ List.mem_cons_self)
  have hlive := (lifetime_reach hr x).2
  constructor
  · intro u g hg hnil
    show ∃ b, (mem.session x).send.mSendBuffer = some b ∧
      begun _ = some (_, _, (mem.session x).send.mPacketCount)
    rcases mem_update _ hg with ⟨_, hg⟩ | hg
    · obtain ⟨g', hg', he⟩ := List.mem_map.mp hg
      cases he
      have heffect := hstep.sendSide
      generalize (mem.session x).send = s' at heffect ⊢
      cases heffect with
      | send f c s' new h =>
        cases h with
        | prepare caller b hb =>
          refine ⟨b, hb, ?_⟩
          simp only [Frame.sendEvent, hb, Option.map_some, Option.toList_some, begun_append]
          rfl
        | dequeue caller producers b xs rest _ _ _ =>
          obtain rfl := List.mem_singleton.mp hg'
          simpa [Frame.sendEvent] using htop rfl
        | fetchSub start copied =>
          obtain rfl := List.mem_singleton.mp hg'
          obtain rfl : copied = [] := Option.some.inj hnil
          simpa [Frame.sendEvent] using htop rfl
        | reject start swapList b hb =>
          obtain rfl := List.mem_singleton.mp hg'
          have hempty : swapList = [] := by simpa [rejectsEmpty, hf] using hok
          simpa [Frame.sendEvent] using htop (by rw [hempty]; rfl)
        | rejected =>
          obtain rfl := List.mem_singleton.mp hg'
          simpa [Frame.sendEvent] using htop rfl
        | refuse | lose | giveUp | post | unregister | clear => simp at hg'
        | _ =>
          obtain rfl := List.mem_singleton.mp hg'
          simp [Frame.registering] at hnil
      | packetCount c => simp at hg'
      | buffer f c b new hne hnew _ =>
        simp [Frame.registering_of_inSend (hnew g hg')] at hnil
    · have htoken := (beside_of_other hf hg sendToken).trans (sendToken_le hr x)
      have hone := Frame.sendToken_of_registering hnil
      have hexists := (hlive u g (hg.mem hf)).1 (Frame.alive_of_registering hnil)
      obtain ⟨b, hb, hbegun⟩ := hs.held u g (hg.mem hf) hnil
      simp only [sendToken, hone] at htoken
      have heffect := hstep.sendSide
      generalize (mem.session x).send = s' at heffect ⊢
      cases heffect with
      | send f c s' new h =>
        have hquiet : f.token = 0 := by
          simp only [Frame.sendToken] at htoken
          omega
        cases h with
        | count =>
          refine ⟨b, hb, ?_⟩
          simp [Frame.sendEvent, begun_append, hbegun, SendEvent.resume]
        | enqueue | refuse | accept | win | lose =>
          exact ⟨b, hb, by simpa [Frame.sendEvent] using hbegun⟩
        | _ => simp [SendFrame.token] at hquiet
      | packetCount c =>
        have hdead := (hlive t _ (hf ▸ List.mem_cons_self)).2 rfl
        simp [hexists] at hdead
      | buffer f c b' new hne _ hb' =>
        have hnone : f.sendEvent (s.mem.session x).send = none := by
          cases f <;> first | rfl | exact absurd rfl (hne _)
        have heq : b' = some b := by
          rcases sendBuffer_kept hr hf hb' with he | he | he
          · exact he.trans hb
          · simp [hb] at he
          · simp [hexists] at he
        exact ⟨b, heq, by simpa [hnone] using hbegun⟩
  · cases hevent : f.sendEvent (s.mem.session x).send with
    | none => simpa using hs.restored
    | some e =>
      apply hs.restored.append
      intro w r k he
      obtain rfl : f = .send .unregister := by
        cases f with
        | send f =>
          cases f <;> cases hb : (s.mem.session x).send.mSendBuffer <;>
            simp [Frame.sendEvent, hb] at hevent <;> simp_all
        | _ => simp [Frame.sendEvent] at hevent
      obtain ⟨b, hb, hbegun⟩ := htop rfl
      simp only [Frame.sendEvent, hb, Option.map_some, Option.some.injEq] at hevent
      rw [hbegun]
      simpa [← hevent] using he

theorem conserved_enter {e : T × PacketPtr} {x : S} {t : T} {c : Choice T S} {f : Frame T}
    {mem : System T S} {h : List (SendEvent T)}
    (hnext : machine.next s (.enter t c) = some
      ⟨mem, Function.update s.frames t ((x, f) :: s.frames t)⟩)
    (hstep : EnterStep s.mem s.frames c mem x f) (hs : Conserved e x s h) :
    Conserved e x ⟨mem, Function.update s.frames t ((x, f) :: s.frames t)⟩
      (h ++ history x (sendEvents s (.enter t c))) := by
  have hcarries := count_enter x x s t f mem (Frame.carries e)
  have hover := count_enter x x s t f mem Frame.overflowed
  have hzero : f.carries e = 0 ∧ f.overflowed = 0 := by cases hstep <;> exact ⟨rfl, rfl⟩
  simp only [if_true, hzero, Nat.add_zero] at hcarries hover
  rcases hs with hs | hs | ⟨hc, htoken⟩
  · apply Or.inl
    rw [hcarries]
    rcases hstep.logged t with ⟨hlog, hside, _⟩ | ⟨n, post, rest, _, _, ho, hlog, hside⟩
    · rw [hlog, history_nil, List.append_nil]
      simpa only [hside] using hs
    · rw [hlog, sent_append]
      simp only [hside, history, sent, ho, List.flatMap_cons, List.count_append] at hs ⊢
      simp
      omega
  · exact .inr (.inl (by rw [hover]; exact hs))
  · exact .inr (.inr (closed_next hnext hc htoken))

omit [Fintype T] in
theorem resumes_enter {x : S} {t : T} {c : Choice T S} {f : Frame T} {mem : System T S}
    {h : List (SendEvent T)} (hstep : EnterStep s.mem s.frames c mem x f) (hs : Resumes x s h) :
    Resumes x ⟨mem, Function.update s.frames t ((x, f) :: s.frames t)⟩
      (h ++ history x (sendEvents s (.enter t c))) := by
  have hfresh : f.registering = none := by cases hstep <;> rfl
  have hold (u : T) (g : Frame T)
      (hg : (x, g) ∈ Function.update s.frames t ((x, f) :: s.frames t) u)
      (hnil : g.registering = some []) : (x, g) ∈ s.frames u := by
    rcases mem_push hg with hg | hg
    · obtain rfl := (Prod.mk.inj hg).2
      simp [hfresh] at hnil
    · exact hg
  rcases hstep.logged t with ⟨hlog, hside, _⟩ | ⟨n, post, rest, _, _, ho, hlog, hside⟩
  · rw [hlog, history_nil, List.append_nil]
    refine ⟨?_, hs.restored⟩
    intro u g hg hnil
    simpa only [hside] using hs.held u g (hold u g hg hnil) hnil
  · have hone : history x (sendEvents s (.enter t c)) = [.completed post n] := by
      simp [hlog, history]
    rw [hone]
    refine ⟨?_, hs.restored.append (by simp)⟩
    intro u g hg hnil
    rw [begun_append]
    simpa only [hside, SendEvent.resume] using hs.held u g (hold u g hg hnil) hnil

/-- Completions in full carry all bytes of their packets. -/
def Complete (h : List (SendEvent T)) : Prop :=
  ∀ post numOfBytes, .completed post numOfBytes ∈ h →
    numOfBytes = (batchBytes post.packets).length

theorem complete_move {x : S} {a : Action T (Choice T S)}
    (hpool : ∀ e ∈ sendPool.mQueue, e.2.Valid sendBufferSize)
    (hr : machine.Reach ok (start recvPool sendPool) s) (hok : sendsComplete s a = true)
    (hmove : Move x s a s') : Complete (history x (sendEvents s a)) := by
  intro post n hmem
  cases hmove with
  | step t c f fs new mem hf hstep =>
    rw [sendEvents_step hf, history_map, if_pos rfl] at hmem
    cases f with
    | send f =>
      cases f <;> cases hb : (s.mem.session x).send.mSendBuffer <;>
        simp [Frame.sendEvent, hb] at hmem
    | _ => simp [Frame.sendEvent] at hmem
  | enter t c f mem hstep =>
    rcases hstep.logged t with ⟨hlog, _⟩ | ⟨k, post', rest, _, rfl, ho, hlog, _⟩
    · simp [hlog] at hmem
    · obtain ⟨rfl, rfl⟩ : post = post' ∧ n = k := by simpa [hlog, history] using hmem
      have hfull : (n : Int) = post.region.length := by simpa [sendsComplete, ho] using hok
      have hstream := (sendStream_reach hpool hr x).1
      have hposted := (hstream.current post (by simp [ho])).1
      rw [(hstream.filled post hposted).region_eq] at hfull
      exact Int.ofNat_inj.mp hfull
  | env c mem hstep => simp [sendEvents] at hmem

theorem losing_reach (hpool : ∀ e ∈ sendPool.mQueue, e.2.Valid sendBufferSize)
    (h : machine.Logged (fun s a => sendsComplete s a = true ∧ rejectsEmpty s a = true) sendEvents
      (start recvPool sendPool) s log) (x : S) :
    (∀ e, Conserved e x s (history x log)) ∧ Resumes x s (history x log) ∧
      Complete (history x log) := by
  refine h.invariant (fun s log => (∀ e, Conserved e x s (history x log)) ∧
    Resumes x s (history x log) ∧ Complete (history x log)) ?_ ?_
  · refine ⟨fun e => .inl ?_, ⟨fun u f hf => absurd hf List.not_mem_nil, ?_⟩, ?_⟩
    · simp [start, System.start, Session.construct, count, history, sent]
    · simp [Restored, history]
    · simp [Complete, history]
  · intro s a s' log hlog hinv hok hnext
    obtain ⟨hconserved, hresumes, hcomplete⟩ := hinv
    have hr := hlog.reach
    rw [history_append]
    obtain ⟨this, hmove, hother⟩ := next_move hnext
    by_cases hx : x = this
    · subst hx
      have hmore := complete_move hpool hr hok.1 hmove
      have hboth : Complete (history x log ++ history x (sendEvents s a)) := by
        intro post n hmem
        exact (List.mem_append.mp hmem).elim (hcomplete post n) (hmore post n)
      cases hmove with
      | step t c f fs new mem hf hstep =>
        rw [sendEvents_step hf, history_map, if_pos rfl] at hboth ⊢
        exact ⟨fun e => conserved_step hr hok.2 hnext hf hstep (hconserved e),
          resumes_step hr hok.2 hf hstep hresumes, hboth⟩
      | enter t c f mem hstep =>
        exact ⟨fun e => conserved_enter hnext hstep (hconserved e),
          resumes_enter hstep hresumes, hboth⟩
      | env c mem hstep =>
        obtain ⟨hc, hside⟩ := hstep.flags x
        simp only [sendEvents, history_nil, List.append_nil]
        refine ⟨?_, ⟨?_, hresumes.restored⟩, hcomplete⟩
        · intro e
          rcases hconserved e with hs | hs | ⟨hclosed, htoken⟩
          · exact .inl (by simpa only [hside, count] using hs)
          · exact .inr (.inl hs)
          · exact .inr (.inr (closed_next hnext hclosed htoken))
        · intro u f hf hnil
          simpa only [hside] using hresumes.held u f hf hnil
    · rw [hmove.history_other (Ne.symm hx), List.append_nil]
      have helse := hother x hx
      refine ⟨?_, ⟨?_, hresumes.restored⟩, hcomplete⟩
      · intro e
        simpa only [Conserved, Potential.total, helse.session, helse.count] using hconserved e
      · intro u f hf hnil
        rw [helse.session]
        exact hresumes.held u f (helse.frames u f hf) hnil

/-- In a run in which no `RIOSend` with packets is rejected, no packet is lost and a rejection leaves
positions and count as they were. -/
theorem loses_nothing (recvPool : RegisteredBufferPool T) (allocated : Bool)
    (registered : Option ℕ) (t : T) (size : ℕ)
    (h : machine.Logged (fun s a => sendsComplete s a = true ∧ rejectsEmpty s a = true) sendEvents
      (start recvPool (.initializePool 32768 allocated registered t size)) s log)
    (x : S) : LosesNothing x s log := by
  have hpool := RegisteredBufferPool.initializePool_valid 32768 allocated registered t size
  obtain ⟨hconserved, hresumes, hcomplete⟩ := losing_reach hpool h x
  refine ⟨?_, hcomplete, hresumes.restored⟩
  intro hc hover e
  rcases hconserved e with hs | hs | ⟨hclosed, _⟩
  · exact hs
  · omega
  · simp [hclosed] at hc

end

/-- Thread `t` sends a packet, and `RIOSend` is rejected. -/
def rejectedRun {T S : Type} (t : T) (this : S) (packet : Packet) : List (Action T (Choice T S)) :=
  (sendRun t this packet).dropLast ++ [.step t (.result false), .step t .go, .step t .go]

theorem rejected_packet_lost :
    ¬∀ (s : SystemConf (Fin 2) Unit) (log : List (Unit × SendEvent (Fin 2))),
      machine.Logged (fun s a => sendsComplete s a = true) sendEvents smallStart s log →
        LosesNothing () s log := by
  intro claim
  have hlogged := Machine.logged_finalChecked machine sendsComplete sendEvents smallStart
    (connectRun 0 0 () ++ rejectedRun 1 () ⟨[1, 2, 3]⟩) (by decide)
  have hkept := (claim _ _ hlogged).kept (by decide) (by decide) (1, some ⟨[1, 2, 3]⟩)
  exact absurd hkept (by decide)

/-- Two sends complete, and the `RIOSend` that is rejected finds the queue empty. -/
theorem loses_nothing_emptyRejected :
    ∃ (s : SystemConf (Fin 2) Unit) (log : List (Unit × SendEvent (Fin 2))),
      (sent (history () log)).length = 2 ∧
        (.rejected 0 0 0 : SendEvent (Fin 2)) ∈ history () log ∧ LosesNothing () s log := by
  have hlogged := Machine.logged_finalChecked machine
    (fun s a => sendsComplete s a && rejectsEmpty s a) sendEvents smallStart
    ((postedBeforeExchange 0 1 ()).dropLast ++
      [.step 1 (.result false), .step 1 .go, .step 1 .go]) (by decide)
  have hallowed := hlogged.mono fun _ _ hok => by simpa using hok
  exact ⟨_, _, by decide, by decide, loses_nothing _ true (some 2) 0 1 hallowed ()⟩

end ServerCore.Network
