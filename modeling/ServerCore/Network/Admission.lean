import ServerCore.Network.QueueSpread
import ServerCore.Network.Registries

namespace ServerCore.Network

open Framework

variable {T S : Type} [DecidableEq T] [DecidableEq S]

/-- Frames on the way to `OnConnected`. -/
def ConnectFrame.beforeEnter : ConnectFrame → ℕ
  | .onConnected => 1
  | f => f.beforeNumber

def Frame.enterToken : Frame T → ℕ
  | .connect f => f.beforeEnter
  | _ => 0

/-- The right to call `OnConnected`. -/
def enterToken : Potential T S := ⟨Session.unconnected, Frame.enterToken⟩

@[simp] theorem beforeEnter_afterAssign (p : Pool) (b : Option NetworkBuffer) :
    (afterAssign p b).beforeEnter = 1 := by
  cases p <;> cases b <;> rfl

theorem enterToken_decreases : (enterToken : Potential T S).Decreases := by
  constructor
  · intro this t σ f c σ' new h
    cases h with
    | send f c s' new h => cases h <;> simp [enterToken, Frame.enterToken, Session.unconnected]
    | recv f c s' new h => cases h <;> simp [enterToken, Frame.enterToken, Session.unconnected]
    | connect f c σ' new h =>
      cases h with
      | refuse f hf => rcases hf with rfl | rfl | rfl <;> simp [enterToken]
      | bind hb =>
        simp +arith [enterToken, Frame.enterToken, Session.unconnected, ConnectFrame.beforeEnter,
          ConnectFrame.beforeNumber, hb]
      | connectEx =>
        simp [enterToken, Frame.enterToken, Session.unconnected, ConnectFrame.beforeEnter,
          ConnectFrame.beforeNumber]
        omega
      | assign p b =>
        simp [enterToken, Frame.enterToken, Session.unconnected,
          stackWeight_releaseFrames Frame.enterToken fun _ => rfl]
        exact le_refl 1
      | _ =>
        simp [enterToken, Frame.enterToken, Session.unconnected, ConnectFrame.beforeEnter,
          ConnectFrame.beforeNumber, Session.record]
    | disconnect f c σ' new h =>
      cases h <;> simp [enterToken, Frame.enterToken, Session.unconnected, Session.record]
    | destroy f c σ' new h =>
      cases h <;>
        simp [enterToken, Frame.enterToken, Session.unconnected,
          stackWeight_releaseFrames Frame.enterToken fun _ => rfl]
  · intro σ σ' frames c this f h
    cases h with
    | accepted this ha =>
      simp +arith [enterToken, Frame.enterToken, Session.unconnected, ConnectFrame.beforeEnter,
        ConnectFrame.beforeNumber, ha]
    | connected this hc =>
      simp [enterToken, Frame.enterToken, Session.unconnected, ConnectFrame.beforeEnter,
        ConnectFrame.beforeNumber]
      omega
    | _ =>
      simp [enterToken, Frame.enterToken, Session.unconnected, ConnectFrame.beforeEnter,
        ConnectFrame.beforeNumber]
  · intro σ σ' x h
    obtain ⟨_, _, he, hle, _⟩ := h.session x
    simp only [Session.unconnected, he] at hle
    simp only [enterToken, Session.unconnected, he]
    omega

/-- `OnConnected` uses the right up. -/
theorem enterToken_used {this : S} {t : T} {σ σ' : System T S} {c : Choice T S}
    {new : List (Frame T)} (h : FrameStep this t σ (.connect .onConnected) c σ' new) :
    enterToken.session (σ'.session this) + stackWeight Frame.enterToken new + 1 =
      enterToken.session (σ.session this) + Frame.enterToken (.connect .onConnected : Frame T) := by
  cases h with
  | connect f c σ' new h =>
    cases h with
    | onConnected =>
      simp [enterToken, Frame.enterToken, ConnectFrame.beforeEnter, ConnectFrame.beforeNumber]
    | refuse f hf => rcases hf with hf | hf | hf <;> cases hf

/-- The frames in which a session is inside a callback come from its call, and `ReleaseSession`
comes after `OnDisconnected`. -/
theorem FrameStep.callback {this : S} {t : T} {σ σ' : System T S} {f : Frame T} {c : Choice T S}
    {new : List (Frame T)} (h : FrameStep this t σ f c σ' new) :
    (.connect .enterRoom ∈ new → f = .connect .onConnected ∧ new = [.connect .enterRoom]) ∧
    (.disconnect .leaveRoom ∈ new →
      f = .disconnect .onDisconnected ∧ new = [.disconnect .leaveRoom]) ∧
    (.disconnect .releaseSession ∈ new → f = .disconnect .leaveRoom) := by
  have released (pool : Pool) (b : Option NetworkBuffer) (g : Frame T)
      (hg : g ≠ .connect .enterRoom ∧ g ≠ .disconnect .leaveRoom ∧ g ≠ .disconnect .releaseSession) :
      ∀ g' ∈ releaseFrames pool b ++ [g], g' ≠ .connect .enterRoom ∧
        g' ≠ .disconnect .leaveRoom ∧ g' ≠ .disconnect .releaseSession :=
    forall_releaseFrames (P := fun g' : Frame T => g' ≠ .connect .enterRoom ∧
      g' ≠ .disconnect .leaveRoom ∧ g' ≠ .disconnect .releaseSession) pool b g (by simp) hg
  have absent {fs : List (Frame T)} (hfs : ∀ g ∈ fs, g ≠ .connect .enterRoom ∧
      g ≠ .disconnect .leaveRoom ∧ g ≠ .disconnect .releaseSession) :
      .connect .enterRoom ∉ fs ∧ .disconnect .leaveRoom ∉ fs ∧
        .disconnect .releaseSession ∉ fs :=
    ⟨fun h => (hfs _ h).1 rfl, fun h => (hfs _ h).2.1 rfl, fun h => (hfs _ h).2.2 rfl⟩
  cases h with
  | send f c s' new h => cases h <;> simp
  | recv f c s' new h => cases h <;> simp
  | connect f c σ' new h =>
    cases h with
    | assign pool b =>
      have hno : ∀ g : ConnectFrame, g = afterAssign pool b → (.connect g : Frame T) ≠
          .connect .enterRoom := by
        rintro _ rfl
        cases pool <;> cases b <;> simp [afterAssign]
      obtain ⟨h₁, h₂, h₃⟩ := absent (released pool ((σ.session this).buffer pool)
        (.connect (afterAssign pool b)) ⟨hno _ rfl, by simp, by simp⟩)
      exact ⟨fun h => absurd h h₁, fun h => absurd h h₂, fun h => absurd h h₃⟩
    | _ => simp
  | disconnect f c σ' new h => cases h <;> simp
  | destroy f c σ' new h =>
    cases h with
    | recvBuffer =>
      obtain ⟨h₁, h₂, h₃⟩ := absent (released .recv ((σ.session this).buffer .recv)
        (.destroy .sendBuffer) (by simp))
      exact ⟨fun h => absurd h h₁, fun h => absurd h h₂, fun h => absurd h h₃⟩
    | sendBuffer =>
      obtain ⟨h₁, h₂, h₃⟩ := absent (released .send ((σ.session this).buffer .send)
        (.destroy .packetCount) (by simp))
      exact ⟨fun h => absurd h h₁, fun h => absurd h h₂, fun h => absurd h h₃⟩
    | _ => simp

omit [DecidableEq T] in
theorem EnterStep.callback {this : S} {σ σ' : System T S} {frames : T → List (SessionFrame T S)}
    {c : Choice T S} {f : Frame T} (h : EnterStep σ frames c σ' this f) :
    f ≠ .connect .enterRoom ∧ f ≠ .disconnect .leaveRoom ∧ f ≠ .disconnect .releaseSession := by
  cases h <;> simp

/-- `OnDisconnected` has been called. -/
def Frame.called : Frame T → Bool
  | .disconnect .onDisconnected | .disconnect .leaveRoom | .disconnect .releaseSession => true
  | _ => false

/-- The call of `OnDisconnected` is on record. -/
def recorded : Assertion T S where
  session _ := True
  frame s f := f.called = true → .disconnectedCalled ∈ s.events

theorem FrameStep.recorded {this : S} {t : T} {σ σ' : System T S} {f : Frame T} {c : Choice T S}
    {new : List (Frame T)} (h : FrameStep this t σ f c σ' new)
    (hf : recorded.frame (σ.session this) f) : ∀ g ∈ new, recorded.frame (σ'.session this) g := by
  simp only [Network.recorded] at hf ⊢
  cases h with
  | send f c s' new h => cases h <;> simp [Frame.called]
  | recv f c s' new h => cases h <;> simp [Frame.called]
  | connect f c σ' new h =>
    cases h with
    | assign pool b =>
      exact forall_releaseFrames _ _ _ (by simp [Frame.called]) (by simp [Frame.called])
    | _ => simp [Frame.called]
  | disconnect f c σ' new h =>
    cases h with
    | processDisconnect => simp [Session.record]
    | onDisconnected => simpa [Frame.called] using hf rfl
    | leaveRoom => simpa [Frame.called] using hf rfl
    | _ => simp [Frame.called]
  | destroy f c σ' new h =>
    cases h with
    | recvBuffer | sendBuffer =>
      exact forall_releaseFrames _ _ _ (by simp [Frame.called]) (by simp [Frame.called])
    | _ => simp [Frame.called]

section Run

variable [Fintype T] {recvPool sendPool : RegisteredBufferPool T}
  {ok : SystemConf T S → Action T (Choice T S) → Prop} {s s' : SystemConf T S}

theorem enterToken_le (h : machine.Reach ok (start recvPool sendPool) s) (x : S) :
    enterToken.total x s ≤ 1 :=
  enterToken_decreases.le x 1 (by simp [enterToken, Session.construct, Session.unconnected]) h

/-- After `OnConnected` nobody has the right to call it. -/
theorem entered (h : machine.Reach ok (start recvPool sendPool) s) {t : T} {c : Choice T S} {x : S}
    {fs : List (SessionFrame T S)} (hf : s.frames t = (x, .connect .onConnected) :: fs)
    (hnext : machine.next s (.step t c) = some s') : enterToken.total x s' = 0 := by
  have hone := enterToken_le h x
  obtain ⟨mem, new, hstep, rfl⟩ := next_top hf hnext
  have hcount := count_step x hf mem new Frame.enterToken
  have hused := enterToken_used hstep
  simp only [Potential.total, enterToken, if_true] at hone hcount hused ⊢
  omega

omit [DecidableEq T] in
/-- A frame on the way to `OnConnected` has that right. -/
theorem not_entered {t : T} {x : S} {f : Frame T} (hf : (x, f) ∈ s.frames t)
    (hpos : 0 < f.enterToken) : enterToken.total x s ≠ 0 := by
  have hle := enterToken.le_total hf
  simp only [enterToken] at hle ⊢
  omega

/-- The number of a session that has entered is settled. -/
theorem mSessionID_of_entered {a : Action T (Choice T S)} {x : S} (hzero : enterToken.total x s = 0)
    (hnext : machine.next s a = some s') :
    (s'.mem.session x).mSessionID = (s.mem.session x).mSessionID := by
  obtain ⟨this, hmove, helse⟩ := next_move hnext
  by_cases hx : x = this
  · subst hx
    cases hmove with
    | step t c f fs new mem hf hstep =>
      apply hstep.mSessionID
      cases hnumbers : f.numbers with
      | false => rfl
      | true =>
        have hpos : 0 < f.enterToken := by
          cases f with
          | connect f => cases f <;> first | exact Nat.one_pos | exact nomatch hnumbers
          | _ => exact nomatch hnumbers
        have hmem : (x, f) ∈ s.frames t := by
          rw [hf]
          exact List.mem_cons_self
        exact absurd hzero (not_entered hmem hpos)
    | enter t c f mem hstep => exact hstep.mSessionID
    | env c mem hstep =>
      obtain ⟨_, _, he, _⟩ := hstep.session x
      simp [he]
  · rw [(helse x hx).session]

/-- What is on record stays there. -/
theorem events_mono {a : Action T (Choice T S)} {x : S} {e : Event}
    (hnext : machine.next s a = some s') (he : e ∈ (s.mem.session x).events) :
    e ∈ (s'.mem.session x).events := by
  obtain ⟨this, hmove, helse⟩ := next_move hnext
  by_cases hx : x = this
  · subst hx
    cases hmove with
    | step t c f fs new mem hf hstep => exact hstep.events.mono he
    | enter t c f mem hstep =>
      show e ∈ (mem.session x).events
      rw [hstep.notReturned.2]
      exact he
    | env c mem hstep =>
      obtain ⟨_, _, heq, _⟩ := hstep.session x
      show e ∈ (mem.session x).events
      rw [heq]
      exact he
  · rw [(helse x hx).session]
    exact he

/-- A session whose `OnConnected` has returned was let in. -/
theorem entered_of_returned (h : machine.Reach ok (start recvPool sendPool) s) {x : S}
    (hreturned : .connectedReturned ∈ (s.mem.session x).events) : enterToken.total x s = 0 := by
  have hle := connectedToken_le h x
  have hpos := List.count_pos_iff.mpr hreturned
  have hframes : count x Frame.enterToken s ≤ count x Frame.connectedToken s := by
    apply count_mono
    intro f
    cases f with
    | connect f => cases f <;> first | exact le_refl _ | exact Nat.zero_le _
    | _ => exact Nat.zero_le _
  simp only [Potential.total, connectedToken, enterToken] at hle ⊢
  omega

theorem recorded_reach (h : machine.Reach ok (start recvPool sendPool) s) (x : S) :
    recorded.Holds x s := by
  refine Assertion.reach h trivial ?step ?beside ?enter ?env
  case step =>
    intro s t c f fs mem new _ _ _ hstep _ htop
    exact ⟨trivial, hstep.recorded htop⟩
  case beside =>
    intro s t c f fs mem new u g _ _ _ hstep _ _ hg hcalled
    exact hstep.events.mono (hg hcalled)
  case enter =>
    intro s t c f mem _ _ hstep _
    obtain ⟨_, hevents⟩ := hstep.notReturned
    refine ⟨trivial, ?_, ?_⟩
    · have hfresh : f.called = false := by cases hstep <;> rfl
      intro hcalled
      exact absurd hcalled (by rw [hfresh]; exact Bool.false_ne_true)
    · intro u g _ hg hcalled
      rw [hevents]
      exact hg hcalled
  case env =>
    intro s mem hstep _
    obtain ⟨_, _, he, _⟩ := hstep.session x
    refine ⟨trivial, ?_⟩
    intro u g _ hg hcalled
    rw [he]
    exact hg hcalled

/-- `SetSessionID` hands out a positive number: its counter has not wrapped. -/
def numbersLeft (s : SystemConf T S) : Action T (Choice T S) → Bool
  | .step t _ =>
      match s.frames t with
      | f :: _ => !f.2.numbers || decide (0 < s.mem.sSessionID)
      | [] => true
  | _ => true

/-- The numbers of the sessions, of which those without one have 0. -/
structure Numbers (s : SystemConf T S) : Prop where
  range : s.mem.sSessionID < 2 ^ 31
  nonneg : ∀ x, 0 ≤ (s.mem.session x).mSessionID
  below : 0 < s.mem.sSessionID → ∀ x, (s.mem.session x).mSessionID < s.mem.sSessionID
  distinct : ∀ x y, (s.mem.session x).mSessionID = (s.mem.session y).mSessionID →
    0 < (s.mem.session x).mSessionID → x = y
  after : ∀ t x f, (x, f) ∈ s.frames t → f.afterNumber = true → 0 < (s.mem.session x).mSessionID
  returned : ∀ x, .connectedReturned ∈ (s.mem.session x).events → 0 < (s.mem.session x).mSessionID

omit [DecidableEq T] [DecidableEq S] [Fintype T] in
theorem Numbers.start (recvPool sendPool : RegisteredBufferPool T) :
    Numbers (start recvPool sendPool : SystemConf T S) := by
  refine ⟨by simp [Network.start, System.start], fun _ => le_refl 0, ?_, ?_, ?_, ?_⟩ <;>
    simp [Network.start, System.start, Session.construct]

omit [DecidableEq T] [DecidableEq S] [Fintype T] in
/-- A change that numbers no session. -/
theorem Numbers.keep (h : Numbers s) (hcounter : s'.mem.sSessionID = s.mem.sSessionID)
    (hid : ∀ x, (s'.mem.session x).mSessionID = (s.mem.session x).mSessionID)
    (hafter : ∀ t x f, (x, f) ∈ s'.frames t → f.afterNumber = true →
      0 < (s.mem.session x).mSessionID)
    (hreturned : ∀ x, .connectedReturned ∈ (s'.mem.session x).events →
      0 < (s.mem.session x).mSessionID) : Numbers s' := by
  refine ⟨?_, ?_, ?_, ?_, ?_, ?_⟩
  · rw [hcounter]
    exact h.range
  · intro x
    rw [hid]
    exact h.nonneg x
  · intro hpos x
    rw [hcounter] at hpos ⊢
    rw [hid]
    exact h.below hpos x
  · intro x y heq hpos
    rw [hid, hid] at heq
    rw [hid] at hpos
    exact h.distinct x y heq hpos
  · intro t x f hf hfa
    rw [hid]
    exact hafter t x f hf hfa
  · intro x hr
    rw [hid]
    exact hreturned x hr

omit [Fintype T] in
/-- A step that numbers its session. -/
theorem Numbers.number (h : Numbers s) {t : T} {c : Choice T S} {this : S} {f : Frame T}
    {fs : List (SessionFrame T S)} {new : List (Frame T)} {mem : System T S}
    (hf : s.frames t = (this, f) :: fs) (hstep : FrameStep this t s.mem f c mem new)
    (hnumbers : f.numbers = true) (hleft : 0 < s.mem.sSessionID) :
    Numbers ⟨mem, Function.update s.frames t ((new.map fun g => (this, g)) ++ fs)⟩ := by
  have hthis : (mem.session this).mSessionID = s.mem.sSessionID :=
    (numberToken_used hstep hnumbers).2
  have hother (x : S) (hx : x ≠ this) : mem.session x = s.mem.session x := hstep.other hx
  have hcounter : mem.sSessionID = toInt32 (s.mem.sSessionID + 1) := by
    rcases step_sSessionID hstep with ⟨_, hcounter⟩ | ⟨hno, _⟩
    · exact hcounter
    · rw [hnumbers] at hno
      cases hno
  have hrange := h.range
  have hcases : mem.sSessionID = s.mem.sSessionID + 1 ∨ mem.sSessionID = -2 ^ 31 := by
    rw [hcounter]
    unfold toInt32
    omega
  have hpos (x : S) (hx : x ≠ this → 0 < (s.mem.session x).mSessionID) :
      0 < (mem.session x).mSessionID := by
    by_cases hx' : x = this
    · rw [hx', hthis]
      exact hleft
    · rw [hother x hx']
      exact hx hx'
  refine ⟨?_, ?_, ?_, ?_, ?_, ?_⟩
  · show mem.sSessionID < 2 ^ 31
    rw [hcounter]
    unfold toInt32
    omega
  · intro x
    by_cases hx : x = this
    · rw [hx]
      show 0 ≤ (mem.session this).mSessionID
      omega
    · show 0 ≤ (mem.session x).mSessionID
      rw [hother x hx]
      exact h.nonneg x
  · intro hpos' x
    have hnext : mem.sSessionID = s.mem.sSessionID + 1 := by
      rcases hcases with hnext | hmin
      · exact hnext
      · have hpos'' : 0 < mem.sSessionID := hpos'
        omega
    show (mem.session x).mSessionID < mem.sSessionID
    by_cases hx : x = this
    · rw [hx]
      omega
    · have hbelow := h.below hleft x
      rw [hother x hx]
      omega
  · intro x y heq hpos'
    have hxy : (mem.session x).mSessionID = (mem.session y).mSessionID := heq
    by_cases hx : x = this <;> by_cases hy : y = this
    · rw [hx, hy]
    · have hbelow := h.below hleft y
      rw [hx, hthis, hother y hy] at hxy
      omega
    · have hbelow := h.below hleft x
      rw [hy, hthis, hother x hx] at hxy
      omega
    · have hx' : 0 < (mem.session x).mSessionID := hpos'
      rw [hother x hx] at hxy hx'
      rw [hother y hy] at hxy
      exact h.distinct x y hxy hx'
  · intro u x g hg hga
    apply hpos x
    intro hx
    rcases mem_update _ hg with ⟨_, hg⟩ | hg
    · obtain ⟨g', _, he⟩ := List.mem_map.mp hg
      exact absurd (congrArg Prod.fst he).symm hx
    · exact h.after u x g (hg.mem hf) hga
  · intro x hr
    apply hpos x
    intro hx
    have hr' : .connectedReturned ∈ (mem.session x).events := hr
    rw [hother x hx] at hr'
    exact h.returned x hr'

theorem Numbers.next {a : Action T (Choice T S)} (h : Numbers s) (hleft : numbersLeft s a = true)
    (hs' : machine.next s a = some s') : Numbers s' := by
  obtain ⟨this, hmove, helse⟩ := next_move hs'
  have hids (hthis : (s'.mem.session this).mSessionID = (s.mem.session this).mSessionID) (x : S) :
      (s'.mem.session x).mSessionID = (s.mem.session x).mSessionID := by
    by_cases hx : x = this
    · rw [hx, hthis]
    · rw [(helse x hx).session]
  have hreturns (hthis : .connectedReturned ∈ (s'.mem.session this).events →
      0 < (s.mem.session this).mSessionID) (x : S)
      (hr : .connectedReturned ∈ (s'.mem.session x).events) : 0 < (s.mem.session x).mSessionID := by
    by_cases hx : x = this
    · rw [hx] at hr ⊢
      exact hthis hr
    · rw [(helse x hx).session] at hr
      exact h.returned x hr
  cases hmove with
  | step t c f fs new mem hf hstep =>
    have hmem : (this, f) ∈ s.frames t := by
      rw [hf]
      exact List.mem_cons_self
    cases hnumbers : f.numbers with
    | true =>
      have hpos : 0 < s.mem.sSessionID := by simpa [numbersLeft, hf, hnumbers] using hleft
      exact h.number hf hstep hnumbers hpos
    | false =>
      have hcounter : mem.sSessionID = s.mem.sSessionID := by
        rcases step_sSessionID hstep with ⟨hyes, _⟩ | ⟨_, hcounter⟩
        · rw [hnumbers] at hyes
          cases hyes
        · exact hcounter
      refine h.keep hcounter (hids (hstep.mSessionID hnumbers)) ?_ (hreturns ?_)
      · intro u x g hg hga
        rcases mem_update _ hg with ⟨_, hg⟩ | hg
        · obtain ⟨g', hg', he⟩ := List.mem_map.mp hg
          cases he
          rcases hstep.afterNumber.1 g hg' hga with hfa | hyes
          · exact h.after t this f hmem hfa
          · rw [hnumbers] at hyes
            cases hyes
        · exact h.after u x g (hg.mem hf) hga
      · intro hr
        rcases hstep.events.connectedReturned_mem hr with hr | rfl
        · exact h.returned this hr
        · exact h.after t this _ hmem rfl
  | enter t c f mem hstep =>
    obtain ⟨hfa, hevents⟩ := hstep.notReturned
    refine h.keep (enter_sSessionID hstep) (hids hstep.mSessionID) ?_ (hreturns ?_)
    · intro u x g hg hga
      rcases mem_push hg with hg | hg
      · obtain rfl := (Prod.mk.inj hg).2
        rw [hfa] at hga
        cases hga
      · exact h.after u x g hg hga
    · intro hr
      have hr' : .connectedReturned ∈ (mem.session this).events := hr
      rw [hevents] at hr'
      exact h.returned this hr'
  | env c mem hstep =>
    obtain ⟨_, _, he, _⟩ := hstep.session this
    refine h.keep (env_sSessionID hstep) (hids (by simp [he])) h.after (hreturns ?_)
    intro hr
    have hr' : .connectedReturned ∈ (mem.session this).events := hr
    rw [he] at hr'
    exact h.returned this hr'

theorem numbers_reach (hok : ∀ s a, ok s a → numbersLeft s a = true)
    (h : machine.Reach ok (start recvPool sendPool) s) : Numbers s :=
  h.invariant Numbers (.start recvPool sendPool)
    fun _ _ _ _ hi hallowed hs => hi.next (hok _ _ hallowed) hs

end Run

end ServerCore.Network
