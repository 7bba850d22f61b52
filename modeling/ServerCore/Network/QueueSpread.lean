import ServerCore.Network.KeyDispatch
import ServerCore.Network.SessionInvariant

namespace ServerCore.Network

open Framework

variable {T S : Type} [DecidableEq T] [DecidableEq S]

/-- A request queue is created with `GetRIOCQ(GetSessionID())`, or `SetSessionID` numbers a
session. -/
inductive QueueEvent (S : Type) where
  | created (session : S) (mSessionID : Int)
  | numbered (session : S) (sSessionID : Int)
  deriving DecidableEq

/-- What a step of a frame of session `x` records. -/
def Frame.queueEvents (σ : System T S) (x : S) (c : Choice T S) : Frame T → List (QueueEvent S)
  | .connect .createRIORQ =>
      match c with
      | .result true => [.created x (σ.session x).mSessionID]
      | _ => []
  | .connect .setSessionID => [.numbered x σ.sSessionID]
  | _ => []

def queueLog (s : SystemConf T S) : Action T (Choice T S) → List (QueueEvent S)
  | .step t c =>
      match s.frames t with
      | f :: _ => f.2.queueEvents s.mem f.1 c
      | [] => []
  | _ => []

namespace QueueEvent

/-- The queue of `mRioCQEventList` that a request queue is created on. -/
def onQueue (n i : ℕ) : QueueEvent S → Bool
  | .created _ mSessionID => GetRIOCQ n mSessionID = some i
  | .numbered .. => false

def isCreated : QueueEvent S → Bool
  | .created .. => true
  | .numbered .. => false

def isNumbered : QueueEvent S → Bool
  | .created .. => false
  | .numbered .. => true

/-- `SetSessionID` of session `x`. -/
def numbers (x : S) : QueueEvent S → Bool
  | .created .. => false
  | .numbered session _ => session = x

end QueueEvent

/-- Every session that began to connect has its request queue and has returned from
`ProcessConnect`. -/
def Settled (s : SystemConf T S) (log : List (QueueEvent S)) : Prop :=
  ∀ x, ((∃ id, .created x id ∈ log) ∨ ∃ k, .numbered x k ∈ log) →
    (∃ id, .created x id ∈ log) ∧ .connectReturned ∈ (s.mem.session x).events

def NoWrap (log : List (QueueEvent S)) : Prop := log.countP QueueEvent.isNumbered < 2 ^ 31

/-- The sessions are spread over `n` completion queues by their numbers. -/
structure Spread (n : ℕ) (s : SystemConf T S) (log : List (QueueEvent S)) : Prop where
  own : ∀ x id, .created x id ∈ log → .connectReturned ∈ (s.mem.session x).events →
    GetRIOCQ n id = GetRIOCQ n (s.mem.session x).mSessionID
  balanced : Settled s log → NoWrap log → ∀ i j, i < n → j < n →
    log.countP (QueueEvent.onQueue n i) ≤ log.countP (QueueEvent.onQueue n j) + 1

/-- Frames on the way to `SetSessionID`. -/
def ConnectFrame.beforeNumber : ConnectFrame → ℕ
  | .connect | .bind | .rejected | .onConnected | .enterRoom | .returned => 0
  | _ => 1

/-- Frames that follow `SetSessionID` in `ProcessConnect`. -/
def Frame.afterNumber : Frame T → Bool
  | .connect .onConnected | .connect .enterRoom | .connect .returned => true
  | _ => false

def Frame.numberToken : Frame T → ℕ
  | .connect f => f.beforeNumber
  | _ => 0

/-- The right to number a session. -/
def numberToken : Potential T S := ⟨Session.unconnected, Frame.numberToken⟩

@[simp] theorem beforeNumber_afterAssign (p : Pool) (b : Option NetworkBuffer) :
    (afterAssign p b).beforeNumber = 1 := by
  cases p <;> cases b <;> rfl

theorem numberToken_decreases : (numberToken : Potential T S).Decreases := by
  constructor
  · intro this t σ f c σ' new h
    cases h with
    | send f c s' new h => cases h <;> simp [numberToken, Frame.numberToken, Session.unconnected]
    | recv f c s' new h => cases h <;> simp [numberToken, Frame.numberToken, Session.unconnected]
    | connect f c σ' new h =>
      cases h with
      | refuse f hf => rcases hf with rfl | rfl | rfl <;> simp [numberToken]
      | bind hb =>
        simp +arith [numberToken, Frame.numberToken, Session.unconnected,
          ConnectFrame.beforeNumber, hb]
      | connectEx =>
        simp [numberToken, Frame.numberToken, Session.unconnected, ConnectFrame.beforeNumber]
        omega
      | assign p b =>
        simp [numberToken, Frame.numberToken, Session.unconnected,
          stackWeight_releaseFrames Frame.numberToken fun _ => rfl]
        exact le_refl 1
      | _ =>
        simp [numberToken, Frame.numberToken, Session.unconnected, ConnectFrame.beforeNumber,
          Session.record]
    | disconnect f c σ' new h =>
      cases h <;> simp [numberToken, Frame.numberToken, Session.unconnected, Session.record]
    | destroy f c σ' new h =>
      cases h <;>
        simp [numberToken, Frame.numberToken, Session.unconnected,
          stackWeight_releaseFrames Frame.numberToken fun _ => rfl]
  · intro σ σ' frames c this f h
    cases h with
    | accepted this ha =>
      simp +arith [numberToken, Frame.numberToken, Session.unconnected, ConnectFrame.beforeNumber, ha]
    | connected this hc =>
      simp [numberToken, Frame.numberToken, Session.unconnected, ConnectFrame.beforeNumber]
      omega
    | _ => simp [numberToken, Frame.numberToken, Session.unconnected, ConnectFrame.beforeNumber]
  · intro σ σ' x h
    obtain ⟨_, _, he, hle, _⟩ := h.session x
    simp only [Session.unconnected, he] at hle
    simp only [numberToken, Session.unconnected, he]
    omega

/-- `SetSessionID` uses the right up. -/
theorem numberToken_used {this : S} {t : T} {σ σ' : System T S} {f : Frame T} {c : Choice T S}
    {new : List (Frame T)} (h : FrameStep this t σ f c σ' new) (hf : f.numbers = true) :
    numberToken.session (σ'.session this) + stackWeight Frame.numberToken new + 1 =
        numberToken.session (σ.session this) + f.numberToken ∧
      (σ'.session this).mSessionID = σ.sSessionID := by
  cases h with
  | connect f c σ' new h =>
    cases h with
    | setSessionID =>
      constructor
      · simp [numberToken, Frame.numberToken, Session.unconnected, ConnectFrame.beforeNumber]
      · simp
    | refuse f hf' => rcases hf' with rfl | rfl | rfl <;> simp [Frame.numbers] at hf
    | _ => simp [Frame.numbers] at hf
  | _ => simp [Frame.numbers] at hf

/-- Nothing else writes `mSessionID`. -/
theorem FrameStep.mSessionID {this : S} {t : T} {σ σ' : System T S} {f : Frame T}
    {c : Choice T S} {new : List (Frame T)} (h : FrameStep this t σ f c σ' new)
    (hf : f.numbers = false) : (σ'.session this).mSessionID = (σ.session this).mSessionID := by
  cases h with
  | send f c s' new h => simp
  | recv f c s' new h => simp
  | connect f c σ' new h =>
    cases h with
    | setSessionID => simp [Frame.numbers] at hf
    | assign p b => cases p <;> simp [Session.setBuffer]
    | _ => simp [Session.record]
  | disconnect f c σ' new h => cases h <;> simp [Session.record]
  | destroy f c σ' new h =>
    cases h <;> simp [Session.setBuffer]

omit [DecidableEq T] in
theorem EnterStep.mSessionID {this : S} {σ σ' : System T S} {frames : T → List (SessionFrame T S)}
    {c : Choice T S} {f : Frame T} (h : EnterStep σ frames c σ' this f) :
    (σ'.session this).mSessionID = (σ.session this).mSessionID := by
  cases h <;> simp

/-- A frame behind `SetSessionID`, or the record of a return, comes from `SetSessionID`. -/
theorem FrameStep.afterNumber {this : S} {t : T} {σ σ' : System T S} {f : Frame T}
    {c : Choice T S} {new : List (Frame T)} (h : FrameStep this t σ f c σ' new) :
    (∀ g ∈ new, g.afterNumber = true → f.afterNumber = true ∨ f.numbers = true) ∧
    (.connectReturned ∈ (σ'.session this).events →
      .connectReturned ∈ (σ.session this).events ∨ f.afterNumber = true) := by
  have released (pool : Pool) (b : Option NetworkBuffer) (g : Frame T)
      (hg : g.afterNumber = false) :
      ∀ g' ∈ releaseFrames pool b ++ [g], g'.afterNumber = true →
        f.afterNumber = true ∨ f.numbers = true := by
    have hnone := forall_releaseFrames (P := fun g' : Frame T => g'.afterNumber = false) pool b g
      (fun _ _ => rfl) hg
    intro g' hg' hafter
    rw [hnone g' hg'] at hafter
    cases hafter
  cases h with
  | send f c s' new h => cases h <;> simp [Frame.afterNumber]
  | recv f c s' new h => cases h <;> simp [Frame.afterNumber]
  | connect f c σ' new h =>
    cases h with
    | refuse f hf => rcases hf with rfl | rfl | rfl <;> simp +contextual
    | assign p b =>
      constructor
      · apply released
        cases p <;> cases b <;> rfl
      · simp +contextual
    | _ => simp [Frame.afterNumber, Frame.numbers, Session.record]
  | disconnect f c σ' new h => cases h <;> simp [Frame.afterNumber, Session.record]
  | destroy f c σ' new h =>
    cases h with
    | recvBuffer =>
      constructor
      · exact released _ _ _ rfl
      · simp +contextual
    | sendBuffer =>
      constructor
      · exact released _ _ _ rfl
      · simp +contextual
    | _ => simp [Frame.afterNumber]

section Run

variable [Fintype T]

/-- What the log tells of session `x`. -/
structure NumberInv (x : S) (s : SystemConf T S) (log : List (QueueEvent S)) : Prop where
  once : numberToken.total x s + log.countP (QueueEvent.numbers x) ≤ 1
  fresh : (∀ k, .numbered x k ∉ log) → (s.mem.session x).mSessionID = 0
  given : ∀ k, .numbered x k ∈ log → (s.mem.session x).mSessionID = k
  created : ∀ id, .created x id ∈ log → id = 0
  after : ∀ t f, (x, f) ∈ s.frames t → f.afterNumber = true → ∃ k, .numbered x k ∈ log
  returned : .connectReturned ∈ (s.mem.session x).events → ∃ k, .numbered x k ∈ log

omit [DecidableEq T] in
theorem NumberInv.start (x : S) (recvPool sendPool : RegisteredBufferPool T) :
    NumberInv x (start recvPool sendPool) [] := by
  refine ⟨?_, fun _ => rfl, by simp, by simp, by simp [Network.start], ?_⟩
  · simp [Network.start, System.start, Potential.total, numberToken, count, Session.construct,
      Session.unconnected]
  · simp [Network.start, System.start, Session.construct]

omit [DecidableEq T] [DecidableEq S] [Fintype T] in
theorem queueEvents_numbers {σ : System T S} {x : S} {c : Choice T S} {f : Frame T}
    (hf : f.numbers = true) : f.queueEvents σ x c = [.numbered x σ.sSessionID] := by
  cases f with
  | connect f => cases f <;> first | rfl | simp [Frame.numbers] at hf
  | _ => simp [Frame.numbers] at hf

omit [DecidableEq T] [DecidableEq S] [Fintype T] in
/-- A frame records something of its own session only. -/
theorem queueEvents_spec {σ : System T S} {x : S} {c : Choice T S} {f : Frame T}
    (hf : f.numbers = false) : f.queueEvents σ x c = [] ∨
      f = .connect .createRIORQ ∧ f.queueEvents σ x c = [.created x (σ.session x).mSessionID] := by
  cases f with
  | connect f =>
    cases f with
    | createRIORQ =>
      cases c with
      | result ok =>
        cases ok
        · exact .inl rfl
        · exact .inr ⟨rfl, rfl⟩
      | _ => exact .inl rfl
    | setSessionID => simp [Frame.numbers] at hf
    | _ => exact .inl rfl
  | _ => exact .inl rfl

omit [DecidableEq T] in
theorem NumberInv.pos {x : S} {s : SystemConf T S} {log : List (QueueEvent S)}
    (h : NumberInv x s log) {k : Int} (hk : .numbered x k ∈ log) : numberToken.total x s = 0 := by
  have honce := h.once
  have hpos : 0 < log.countP (QueueEvent.numbers x) :=
    List.countP_pos_iff.mpr ⟨_, hk, by simp [QueueEvent.numbers]⟩
  omega

omit [DecidableEq T] in
/-- An action that does not number session `x`. -/
theorem NumberInv.unnumbered {x : S} {s s' : SystemConf T S} {log events : List (QueueEvent S)}
    (h : NumberInv x s log) (htotal : numberToken.total x s' ≤ numberToken.total x s)
    (hid : (s'.mem.session x).mSessionID = (s.mem.session x).mSessionID)
    (hframes : ∀ t f, (x, f) ∈ s'.frames t → f.afterNumber = true → ∃ k, .numbered x k ∈ log)
    (hreturned : .connectReturned ∈ (s'.mem.session x).events → ∃ k, .numbered x k ∈ log)
    (hnone : ∀ k, .numbered x k ∉ events) (hcreated : ∀ id, .created x id ∈ events → id = 0) :
    NumberInv x s' (log ++ events) := by
  have hsame (k : Int) : .numbered x k ∈ log ++ events ↔ .numbered x k ∈ log := by
    rw [List.mem_append]
    exact or_iff_left (hnone k)
  have hzero : events.countP (QueueEvent.numbers x) = 0 := by
    apply List.countP_eq_zero.mpr
    intro e he
    cases e with
    | created y k => simp [QueueEvent.numbers]
    | numbered y k =>
      intro hy
      obtain rfl : y = x := by simpa [QueueEvent.numbers] using hy
      exact hnone k he
  refine ⟨?_, ?_, ?_, ?_, ?_, ?_⟩
  · rw [List.countP_append, hzero]
    have honce := h.once
    omega
  · intro hno
    rw [hid]
    exact h.fresh fun k hk => hno k ((hsame k).mpr hk)
  · intro k hk
    rw [hid]
    exact h.given k ((hsame k).mp hk)
  · intro id hid
    rcases List.mem_append.mp hid with hid | hid
    · exact h.created id hid
    · exact hcreated id hid
  · intro t f hf hfa
    obtain ⟨k, hk⟩ := hframes t f hf hfa
    exact ⟨k, (hsame k).mpr hk⟩
  · intro hr
    obtain ⟨k, hk⟩ := hreturned hr
    exact ⟨k, (hsame k).mpr hk⟩

omit [DecidableEq T] in
/-- `SetSessionID` of session `x` itself. -/
theorem NumberInv.numbered {x : S} {s s' : SystemConf T S} {log : List (QueueEvent S)} {k : Int}
    (h : NumberInv x s log) (htotal : numberToken.total x s' + 1 ≤ numberToken.total x s)
    (hid : (s'.mem.session x).mSessionID = k) : NumberInv x s' (log ++ [.numbered x k]) := by
  have hlast : .numbered x k ∈ log ++ [.numbered x k] :=
    List.mem_append_right log (List.mem_singleton_self _)
  have honce := h.once
  refine ⟨?_, ?_, ?_, ?_, fun _ _ _ _ => ⟨k, hlast⟩, fun _ => ⟨k, hlast⟩⟩
  · have hone : [QueueEvent.numbered x k].countP (QueueEvent.numbers x) = 1 := by
      simp [QueueEvent.numbers]
    rw [List.countP_append, hone]
    omega
  · intro hno
    exact absurd hlast (hno k)
  · intro k' hk'
    rcases List.mem_append.mp hk' with hk' | hk'
    · have hzero := h.pos hk'
      omega
    · cases List.mem_singleton.mp hk'
      exact hid
  · intro id hcreated
    rcases List.mem_append.mp hcreated with hcreated | hcreated
    · exact h.created id hcreated
    · cases List.mem_singleton.mp hcreated

/-- A step of session `x` itself. -/
theorem NumberInv.step {x : S} {s : SystemConf T S} {log : List (QueueEvent S)} {t : T}
    {c : Choice T S} {f : Frame T} {fs : List (SessionFrame T S)} {new : List (Frame T)}
    {mem : System T S} (h : NumberInv x s log) (hf : s.frames t = (x, f) :: fs)
    (hstep : FrameStep x t s.mem f c mem new) :
    NumberInv x ⟨mem, Function.update s.frames t ((new.map fun g => (x, g)) ++ fs)⟩
      (log ++ f.queueEvents s.mem x c) := by
  have hmem : (x, f) ∈ s.frames t := by
    rw [hf]
    exact List.mem_cons_self ..
  have hcount := count_step x hf mem new Frame.numberToken
  have hshare := le_count hmem Frame.numberToken
  obtain ⟨hafter, hreturned⟩ := hstep.afterNumber
  simp only [if_true] at hcount
  cases hnumbers : f.numbers with
  | true =>
    obtain ⟨hused, hid⟩ := numberToken_used hstep hnumbers
    rw [queueEvents_numbers hnumbers]
    apply h.numbered _ hid
    simp only [Potential.total, numberToken] at hused hcount ⊢
    omega
  | false =>
    apply h.unnumbered _ (hstep.mSessionID hnumbers)
    · intro u g hg hga
      rcases mem_update _ hg with ⟨_, hg⟩ | hg
      · obtain ⟨g', hg', he⟩ := List.mem_map.mp hg
        cases he
        rcases hafter g hg' hga with hfa | hcontra
        · exact h.after t f hmem hfa
        · rw [hnumbers] at hcontra
          cases hcontra
      · exact h.after u g (hg.mem hf) hga
    · intro hevents
      rcases hreturned hevents with hevents | hfa
      · exact h.returned hevents
      · exact h.after t f hmem hfa
    · intro k hk
      rcases queueEvents_spec (x := x) (σ := s.mem) (c := c) hnumbers with hev | ⟨_, hev⟩
      · simp [hev] at hk
      · simp [hev] at hk
    · intro id hcreated
      rcases queueEvents_spec (x := x) (σ := s.mem) (c := c) hnumbers with hev | ⟨rfl, hev⟩
      · simp [hev] at hcreated
      · rw [hev] at hcreated
        cases List.mem_singleton.mp hcreated
        -- the session still has the right to be numbered
        apply h.fresh
        intro k hk
        have hzero := h.pos hk
        have hone : (.connect .createRIORQ : Frame T).numberToken = 1 := rfl
        simp only [Potential.total, numberToken] at hzero
        omega
    · have hdecrease := numberToken_decreases.step _ _ _ _ _ _ _ hstep
      simp only [Potential.total, numberToken] at hdecrease hcount ⊢
      omega

omit [DecidableEq T] [Fintype T] in
theorem EnterStep.notReturned {this : S} {σ σ' : System T S} {frames : T → List (SessionFrame T S)}
    {c : Choice T S} {f : Frame T} (h : EnterStep σ frames c σ' this f) :
    f.afterNumber = false ∧ (σ'.session this).events = (σ.session this).events := by
  cases h <;> simp [Frame.afterNumber]

theorem NumberInv.next {x : S} {s s' : SystemConf T S} {a : Action T (Choice T S)}
    {log : List (QueueEvent S)} (h : NumberInv x s log) (hs' : machine.next s a = some s') :
    NumberInv x s' (log ++ queueLog s a) := by
  obtain ⟨this, hmove, helse⟩ := next_move hs'
  by_cases hx : x = this
  · subst hx
    have hdecrease := numberToken_decreases.next x hs'
    cases hmove with
    | step t c f fs new mem hf hstep =>
      have hlog : queueLog s (.step t c) = f.queueEvents s.mem x c := by simp [queueLog, hf]
      rw [hlog]
      exact h.step hf hstep
    | enter t c f mem hstep =>
      obtain ⟨hfa, hevents⟩ := hstep.notReturned
      apply h.unnumbered hdecrease hstep.mSessionID _ (by rw [hevents]; exact h.returned)
        (by simp [queueLog]) (by simp [queueLog])
      intro u g hg hga
      rcases mem_push hg with hg | hg
      · obtain rfl := (Prod.mk.inj hg).2
        rw [hfa] at hga
        cases hga
      · exact h.after u g hg hga
    | env c mem hstep =>
      obtain ⟨_, _, he, _⟩ := hstep.session x
      apply h.unnumbered hdecrease (by simp [he]) h.after _ (by simp [queueLog])
        (by simp [queueLog])
      simpa [he] using h.returned
  · have hother := helse x hx
    have hevents : ∀ y k, (.numbered y k ∈ queueLog s a ∨ .created y k ∈ queueLog s a) → y ≠ x := by
      cases hmove with
      | step t c f fs new mem hf hstep =>
        have hlog : queueLog s (.step t c) = f.queueEvents s.mem this c := by simp [queueLog, hf]
        intro y k hy
        rw [hlog] at hy
        cases hnumbers : f.numbers with
        | true =>
          rw [queueEvents_numbers hnumbers] at hy
          rintro rfl
          simp [hx] at hy
        | false =>
          rcases queueEvents_spec (x := this) (σ := s.mem) (c := c) hnumbers with hev | ⟨_, hev⟩
          · simp [hev] at hy
          · rintro rfl
            simp [hev, hx] at hy
      | enter => simp [queueLog]
      | env => simp [queueLog]
    apply h.unnumbered _ (by rw [hother.session])
      (fun u g hg hga => h.after u g (hother.frames u g hg) hga)
      (by rw [hother.session]; exact h.returned) (fun k hk => hevents x k (.inl hk) rfl)
      (fun id hid => absurd rfl (hevents x id (.inr hid)))
    simp only [Potential.total, hother.session, hother.count, le_refl]

variable {ok : SystemConf T S → Action T (Choice T S) → Prop}
  {recvPool sendPool : RegisteredBufferPool T} {s : SystemConf T S} {log : List (QueueEvent S)}

theorem numberInv_of_run (h : machine.Logged ok queueLog (start recvPool sendPool) s log) (x : S) :
    NumberInv x s log :=
  h.invariant (NumberInv x) (NumberInv.start x recvPool sendPool)
    fun _ _ _ _ _ hi _ hs => hi.next hs

omit [DecidableEq T] [DecidableEq S] [Fintype T] in
theorem toSize_zero_queue {n : ℕ} (hn : 1 ≤ n) : GetRIOCQ n 0 = some 0 := by
  have hne : n ≠ 0 := by omega
  simp [GetRIOCQ, hne, toSize]

omit [DecidableEq T] [DecidableEq S] [Fintype T] in
theorem zero_queue_iff {n : ℕ} (hn : 1 ≤ n) (k : Int) :
    GetRIOCQ n 0 = GetRIOCQ n k ↔ n ∣ toSize k := by
  have hne : n ≠ 0 := by omega
  rw [toSize_zero_queue hn, GetRIOCQ, if_neg hne, Option.some.injEq, Nat.dvd_iff_mod_eq_zero,
    eq_comm]

/-- Every request queue is created on the first completion queue: the session has no number yet. -/
theorem created_on_first {n : ℕ} (hn : 1 ≤ n)
    (h : machine.Logged ok queueLog (start recvPool sendPool) s log) (i : ℕ) :
    log.countP (QueueEvent.onQueue n i) = if i = 0 then log.countP QueueEvent.isCreated else 0 := by
  have hon : ∀ e ∈ log, QueueEvent.onQueue n i e = (decide (i = 0) && e.isCreated) := by
    intro e he
    cases e with
    | created x id =>
      have hid := (numberInv_of_run h x).created id he
      simp [QueueEvent.onQueue, QueueEvent.isCreated, hid, toSize_zero_queue hn, eq_comm]
    | numbered x k => simp [QueueEvent.onQueue, QueueEvent.isCreated]
  rw [List.countP_congr (fun e he => by rw [hon e he])]
  by_cases hi : i = 0 <;> simp [hi]

/-- With more than one completion queue the sessions are spread only as far as the numbers that
they get later happen to belong to the first queue, and settled runs have one session at most. -/
theorem spread_iff {n : ℕ} (hn : 1 ≤ n)
    (h : machine.Logged (fun _ _ => True) queueLog (start recvPool sendPool) s log) :
    Spread n s log ↔ n = 1 ∨
      (∀ x id k, .created x id ∈ log → .numbered x k ∈ log →
        .connectReturned ∈ (s.mem.session x).events → n ∣ toSize k) ∧
      (Settled s log → NoWrap log → log.countP QueueEvent.isCreated ≤ 1) := by
  have hcount := created_on_first hn h
  constructor
  · intro hspread
    by_cases hone : n = 1
    · exact .inl hone
    · refine .inr ⟨?_, ?_⟩
      · intro x id k hcreated hnumbered hreturned
        have hown := hspread.own x id hcreated hreturned
        rw [(numberInv_of_run h x).created id hcreated, (numberInv_of_run h x).given k hnumbered]
          at hown
        exact (zero_queue_iff hn k).mp hown
      · intro hsettled hwrap
        have hbalanced := hspread.balanced hsettled hwrap 0 1 (by omega) (by omega)
        rw [hcount, hcount, if_pos rfl, if_neg one_ne_zero] at hbalanced
        omega
  · intro hcases
    constructor
    · intro x id hcreated hreturned
      obtain ⟨k, hk⟩ := (numberInv_of_run h x).returned hreturned
      rw [(numberInv_of_run h x).created id hcreated, (numberInv_of_run h x).given k hk,
        zero_queue_iff hn k]
      rcases hcases with rfl | ⟨hown, _⟩
      · exact one_dvd _
      · exact hown x id k hcreated hk hreturned
    · intro hsettled hwrap i j hi hj
      rw [hcount, hcount]
      rcases hcases with rfl | ⟨_, hfew⟩
      · have hij : i = j := by omega
        subst hij
        omega
      · have hone := hfew hsettled hwrap
        split_ifs <;> omega

end Run

/-- Thread `t` takes session `x` from `AcceptEx` to the end of `ProcessConnect`. -/
def acceptsClient {T S : Type} (t : T) (x : S) : List (Action T (Choice T S)) :=
  [.env (.acceptEx x), .enter t (.accepted x), .step t .go, .step t .go, .step t .go, .step t .go,
    .step t (.result true), .step t .go, .step t .go, .step t .go, .step t .go, .step t .go,
    .step t .go]

theorem spread_iff_oneClient : ∃ (s : SystemConf Unit Unit) (log : List (QueueEvent Unit)),
    log = [.created () 0, .numbered () 1] ∧ Spread 1 s log ∧ ¬Spread 2 s log := by
  have hlogged := Machine.logged_finalChecked (machine (T := Unit) (S := Unit)) (fun _ _ => true)
    queueLog (start .empty .empty) (acceptsClient () ()) (by decide)
  have hrun := hlogged.mono fun s a (_ : true = true) => (trivial : (fun _ _ => True) s a)
  refine ⟨_, _, by decide, (spread_iff (by decide) hrun).mpr (.inl rfl), ?_⟩
  intro hspread
  rcases (spread_iff (by decide) hrun).mp hspread with hone | ⟨hown, _⟩
  · cases hone
  · have hdvd := hown () 0 1 (by decide) (by decide) (by decide)
    exact absurd hdvd (by decide)

theorem client_on_wrong_queue : ¬∀ (n : ℕ) (s : SystemConf Unit Unit) (log : List (QueueEvent Unit)),
    1 ≤ n → machine.Logged (fun _ _ => True) queueLog (start .empty .empty) s log →
    Spread n s log := by
  intro claim
  have hlogged := Machine.logged_finalChecked (machine (T := Unit) (S := Unit)) (fun _ _ => true)
    queueLog (start .empty .empty) (acceptsClient () ()) (by decide)
  have hspread := claim 2 _ _ (by decide) (hlogged.mono fun _ _ _ => trivial)
  have hown := hspread.own () 0 (by decide) (by decide)
  exact absurd hown (by decide)

end ServerCore.Network
