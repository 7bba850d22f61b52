import ServerCore.Network.CompletionQueues

namespace ServerCore.Network

open Framework

variable {T Q R : Type} [DecidableEq Q]

namespace DispatchFrame

/-- The steps that are left until `RIONotify(q)`, in a thread that has received the packet of
`q`. -/
def left (q : Q) : DispatchFrame Q R → ℕ
  | .succeeded packet => if packet = notification q then 4 else 0
  | .failed _ packet => if packet = some (notification q) then 4 else 0
  | .dispatch q' => if q' = q then 3 else 0
  | .dequeuing q' => if q' = q then 2 else 0
  | .notify q' _ _ => if q' = q then 1 else 0
  | _ => 0

/-- The thread drains `q`. -/
def drains (q : Q) (f : DispatchFrame Q R) : ℕ := if f.left q = 0 then 0 else 1

/-- Between receiving the packet of `q` and the end of `RIODequeueCompletion`. -/
def receiving (q : Q) (f : DispatchFrame Q R) : Prop := 2 ≤ f.left q

/-- The first `RIONotify(q)` is still to come. -/
def arms (q : Q) : DispatchFrame Q R → ℕ
  | .arm q' => if q' = q then 1 else 0
  | _ => 0

/-- `q` is about to be listed. -/
def lists (q : Q) : DispatchFrame Q R → ℕ
  | .setService q' => if q' = q then 1 else 0
  | .pushBack q' => if q' = q then 1 else 0
  | _ => 0

end DispatchFrame

namespace DispatchMem

/-- The notification of `q` that is armed, and those that are posted. -/
def tokens (q : Q) (s : DispatchMem Q R) : ℕ := (s.armed q).toNat + s.packets.count (notification q)

def listed (q : Q) (s : DispatchMem Q R) : ℕ := if q ∈ s.mRioCQEventList then 1 else 0

def isCreated (q : Q) (s : DispatchMem Q R) : ℕ := if q ∈ s.created then 1 else 0

/-- A packet with the key of a notification is that of a queue with its `mService`. -/
def PacketOk (s : DispatchMem Q R) (packet : IocpPacket Q) : Prop :=
  (∃ q, packet = notification q ∧ s.mService q = true) ∨
    packet.key = 0 ∧ ∀ q, packet.iocpContext ≠ some (.notify q)

def FrameOk (s : DispatchMem Q R) : DispatchFrame Q R → Prop
  | .succeeded packet => s.PacketOk packet
  | .failed errorCode none => errorCode = waitTimeout
  | .failed errorCode (some packet) => errorCode ≠ waitTimeout ∧ s.PacketOk packet
  | .pushBack q => s.mService q = true
  | _ => True

end DispatchMem

omit [DecidableEq Q] in
theorem notification_injective {q q' : Q} (h : notification q = notification q') : q = q' := by
  simpa [notification] using h

/-- What one step of a thread does. -/
inductive DispatchStep (s : DispatchMem Q R) :
    DispatchFrame Q R → DispatchMem Q R → List (DispatchFrame Q R) → Prop
  | timeOut : DispatchStep s .processDispatch s [.failed waitTimeout none]
  | succeed (packet) : packet ∈ s.packets → DispatchStep s .processDispatch
      { s with packets := s.packets.erase packet } [.succeeded packet]
  | fail (errorCode packet) : packet ∈ s.packets → errorCode ≠ waitTimeout →
      DispatchStep s .processDispatch { s with packets := s.packets.erase packet }
        [.failed errorCode (some packet)]
  | received (f q) : f = .succeeded (notification q) ∨
        (∃ errorCode, f = .failed errorCode (some (notification q))) →
      DispatchStep s f s [.dispatch q]
  | timedOut (packet) : DispatchStep s (.failed waitTimeout packet) s []
  | other (f new) : (∀ q, f.left q = 0) → (∀ q, f.arms q = 0) → (∀ q, f.lists q = 0) →
      new = [] ∨ new = [.dispatcher] → DispatchStep s f s new
  | dispatch (q) : DispatchStep s (.dispatch q) s [.dequeuing q]
  | corrupt (q) : DispatchStep s (.dequeuing q) s [.notify q rioCorruptCQ []]
  | dequeue (q numResult) : DispatchStep s (.dequeuing q)
      { s with waiting := Function.update s.waiting q ((s.waiting q).drop numResult) }
      [.notify q numResult ((s.waiting q).take numResult)]
  | notify (q numResult results) : DispatchStep s (.notify q numResult results) (s.rioNotify q)
      [.check numResult results]
  | check (numResult results new) : new = [] ∨ new = [.deliver results] →
      DispatchStep s (.check numResult results) s new
  | deliver (r results) :
      DispatchStep s (.deliver (r :: results)) s [.dispatcher, .deliver results]
  | create (q) : q ∉ s.created →
      DispatchStep s .createRIOCQ { s with created := q :: s.created } [.arm q]
  | arm (q) : DispatchStep s (.arm q) (s.rioNotify q) [.setService q]
  | armFailed (q) : DispatchStep s (.arm q) s []
  | setService (q) : DispatchStep s (.setService q)
      { s with mService := Function.update s.mService q true } [.pushBack q]
  | pushBack (q) : DispatchStep s (.pushBack q)
      { s with mRioCQEventList := s.mRioCQEventList ++ [q] } []

omit [DecidableEq Q] in
theorem serviceDispatch_spec {s s' : DispatchMem Q R} {iocpContext : IocpContext Q}
    {new : List (DispatchFrame Q R)} (h : s.serviceDispatch iocpContext = some (s', new)) :
    ∃ q, iocpContext = .notify q ∧ s' = s ∧ new = [.dispatch q] := by
  cases iocpContext with
  | notify q =>
    simp only [DispatchMem.serviceDispatch] at h
    split at h <;> simp only [reduceCtorEq, Option.some.injEq, Prod.mk.injEq] at h
    exact ⟨q, rfl, h.1.symm, h.2.symm⟩
  | operation mDispatcher => cases h

/-- A packet that is no notification goes by. -/
theorem left_succeeded {packet : IocpPacket Q} (h : ∀ q, packet ≠ notification q) (q : Q) :
    (.succeeded packet : DispatchFrame Q R).left q = 0 := if_neg (h q)

theorem left_failed {errorCode : ℕ} {packet : Option (IocpPacket Q)}
    (h : ∀ q, packet ≠ some (notification q)) (q : Q) :
    (.failed errorCode packet : DispatchFrame Q R).left q = 0 := if_neg (h q)

theorem processDispatchStep_spec {s s' : DispatchMem Q R} {f : DispatchFrame Q R}
    {c : DispatchChoice Q R} {new : List (DispatchFrame Q R)}
    (h : processDispatchStep s f c = some (s', new)) :
    DispatchStep s f s' new := by
  cases f with
  | processDispatch =>
    cases c <;> simp only [processDispatchStep, reduceCtorEq] at h
    case timeOut =>
      simp only [Option.some.injEq, Prod.mk.injEq] at h
      obtain ⟨rfl, rfl⟩ := h
      exact .timeOut
    case succeed packet =>
      split at h <;> simp only [reduceCtorEq, Option.some.injEq, Prod.mk.injEq] at h
      next hmem =>
      obtain ⟨rfl, rfl⟩ := h
      exact .succeed packet hmem
    case fail errorCode packet =>
      split at h <;> simp only [reduceCtorEq, Option.some.injEq, Prod.mk.injEq] at h
      next hmem =>
      obtain ⟨rfl, rfl⟩ := h
      exact .fail errorCode packet hmem.1 hmem.2
  | succeeded packet =>
    cases c <;> simp only [processDispatchStep, reduceCtorEq] at h
    obtain ⟨key, iocpContext⟩ := packet
    cases iocpContext with
    | none =>
      simp only [Option.some.injEq, Prod.mk.injEq] at h
      obtain ⟨rfl, rfl⟩ := h
      exact .other _ _ (left_succeeded (by simp [notification])) (fun _ => rfl) (fun _ => rfl)
        (.inl rfl)
    | some iocpContext =>
      simp only at h
      split at h
      · next hkey =>
        obtain ⟨q, rfl, rfl, rfl⟩ := serviceDispatch_spec h
        exact .received _ q (.inl (by rw [hkey]; rfl))
      · next hkey =>
        simp only [Option.some.injEq, Prod.mk.injEq] at h
        obtain ⟨rfl, rfl⟩ := h
        refine .other _ _ (left_succeeded ?_) (fun _ => rfl) (fun _ => rfl) ?_
        · intro q hq
          exact hkey (congrArg IocpPacket.key hq)
        · split <;> simp
  | failed errorCode packet =>
    cases c <;> simp only [processDispatchStep, reduceCtorEq] at h
    split at h
    · next hcode =>
      simp only [Option.some.injEq, Prod.mk.injEq] at h
      obtain ⟨rfl, rfl⟩ := h
      subst hcode
      exact .timedOut packet
    · split at h
      · cases h
      · next key iocpContext hpacket =>
        obtain ⟨packet, rfl, hcontext⟩ := Option.bind_eq_some_iff.mp hpacket
        obtain ⟨context, hsome, heq⟩ := Option.map_eq_some_iff.mp hcontext
        simp only [Prod.mk.injEq] at heq
        obtain ⟨hkey', rfl⟩ := heq
        split at h
        · next hkey =>
          obtain ⟨q, rfl, rfl, rfl⟩ := serviceDispatch_spec h
          have hnotify : packet = notification q := by
            obtain ⟨key', context'⟩ := packet
            simp_all [notification]
          exact .received _ q (.inr ⟨errorCode, by rw [hnotify]⟩)
        · next hkey =>
          split at h <;> simp only [reduceCtorEq, Option.some.injEq, Prod.mk.injEq] at h
          obtain ⟨rfl, rfl⟩ := h
          refine .other _ _ (left_failed ?_) (fun _ => rfl) (fun _ => rfl) (.inr rfl)
          intro q hq
          rw [Option.some.injEq] at hq
          subst hq
          exact hkey hkey'.symm
  | dispatcher =>
    cases c <;> simp only [processDispatchStep, reduceCtorEq, Option.some.injEq,
      Prod.mk.injEq] at h
    obtain ⟨rfl, rfl⟩ := h
    exact .other _ _ (fun _ => rfl) (fun _ => rfl) (fun _ => rfl) (.inl rfl)
  | _ => cases c <;> simp only [processDispatchStep, reduceCtorEq] at h

theorem serviceDispatchStep_spec {s s' : DispatchMem Q R} {f : DispatchFrame Q R}
    {c : DispatchChoice Q R} {new : List (DispatchFrame Q R)}
    (h : serviceDispatchStep s f c = some (s', new)) :
    DispatchStep s f s' new := by
  cases f with
  | dispatch q =>
    cases c <;> simp only [serviceDispatchStep, reduceCtorEq, Option.some.injEq,
      Prod.mk.injEq] at h
    obtain ⟨rfl, rfl⟩ := h
    exact .dispatch q
  | dequeuing q =>
    cases c <;> simp only [serviceDispatchStep, reduceCtorEq] at h
    split at h
    · simp only [Option.some.injEq, Prod.mk.injEq] at h
      obtain ⟨rfl, rfl⟩ := h
      exact .corrupt q
    · split at h <;> simp only [reduceCtorEq, Option.some.injEq, Prod.mk.injEq] at h
      obtain ⟨rfl, rfl⟩ := h
      exact .dequeue q _
  | notify q numResult results =>
    cases c <;> simp only [serviceDispatchStep, reduceCtorEq, Option.some.injEq,
      Prod.mk.injEq] at h
    obtain ⟨rfl, rfl⟩ := h
    exact .notify q numResult results
  | check numResult results =>
    cases c <;> simp only [serviceDispatchStep, reduceCtorEq, Option.some.injEq,
      Prod.mk.injEq] at h
    obtain ⟨rfl, rfl⟩ := h
    apply DispatchStep.check
    split <;> simp
  | deliver results =>
    cases results with
    | nil =>
      cases c <;> simp only [serviceDispatchStep, reduceCtorEq, Option.some.injEq,
        Prod.mk.injEq] at h
      obtain ⟨rfl, rfl⟩ := h
      exact .other _ _ (fun _ => rfl) (fun _ => rfl) (fun _ => rfl) (.inl rfl)
    | cons r results =>
      cases c <;> simp only [serviceDispatchStep, reduceCtorEq, Option.some.injEq,
        Prod.mk.injEq] at h
      obtain ⟨rfl, rfl⟩ := h
      exact .deliver r results
  | _ => cases c <;> simp only [serviceDispatchStep, reduceCtorEq] at h

theorem createStep_spec {s s' : DispatchMem Q R} {f : DispatchFrame Q R}
    {c : DispatchChoice Q R} {new : List (DispatchFrame Q R)}
    (h : createStep s f c = some (s', new)) :
    DispatchStep s f s' new := by
  cases f with
  | createRIOCQ =>
    cases c <;> simp only [createStep, reduceCtorEq] at h
    case create q =>
    cases q with
    | none =>
      simp only [Option.some.injEq, Prod.mk.injEq] at h
      obtain ⟨rfl, rfl⟩ := h
      exact .other _ _ (fun _ => rfl) (fun _ => rfl) (fun _ => rfl) (.inl rfl)
    | some q =>
      simp only at h
      split at h <;> simp only [reduceCtorEq, Option.some.injEq, Prod.mk.injEq] at h
      next hnew =>
      obtain ⟨rfl, rfl⟩ := h
      exact .create q hnew
  | arm q =>
    cases c <;> simp only [createStep, reduceCtorEq] at h
    split at h <;> simp only [Option.some.injEq, Prod.mk.injEq] at h <;> obtain ⟨rfl, rfl⟩ := h
    · exact .arm q
    · exact .armFailed q
  | setService q =>
    cases c <;> simp only [createStep, reduceCtorEq, Option.some.injEq,
      Prod.mk.injEq] at h
    obtain ⟨rfl, rfl⟩ := h
    exact .setService q
  | pushBack q =>
    cases c <;> simp only [createStep, reduceCtorEq, Option.some.injEq,
      Prod.mk.injEq] at h
    obtain ⟨rfl, rfl⟩ := h
    exact .pushBack q
  | _ => cases c <;> simp only [createStep, reduceCtorEq] at h

theorem dispatchStep_spec {s s' : DispatchMem Q R} {t : T} {f : DispatchFrame Q R}
    {c : DispatchChoice Q R} {new : List (DispatchFrame Q R)}
    (h : dispatchStep s t f c = some (s', new)) : DispatchStep s f s' new := by
  cases f with
  | processDispatch | succeeded | failed | dispatcher => exact processDispatchStep_spec h
  | dispatch | dequeuing | notify | check | deliver => exact serviceDispatchStep_spec h
  | createRIOCQ | arm | setService | pushBack => exact createStep_spec h

section Tokens

variable (s : DispatchMem Q R) (q q' : Q)

@[simp] theorem rioNotify_isCreated : (s.rioNotify q').isCreated q = s.isCreated q := by
  unfold DispatchMem.rioNotify
  split_ifs <;> rfl

@[simp] theorem rioNotify_listed : (s.rioNotify q').listed q = s.listed q := by
  unfold DispatchMem.rioNotify
  split_ifs <;> rfl

/-- `RIONotify` makes one notification, if there is none. -/
theorem tokens_rioNotify (h : s.tokens q + (if q' = q then 1 else 0) ≤ 1) :
    (s.rioNotify q').tokens q = s.tokens q + if q' = q then 1 else 0 := by
  unfold DispatchMem.rioNotify
  by_cases hq : q' = q
  · subst hq
    have hfree : s.armed q' = false := by
      by_contra harmed
      simp [DispatchMem.tokens, Bool.eq_true_of_not_eq_false harmed] at h
    by_cases hempty : (s.waiting q').isEmpty
    · simp [hfree, hempty, DispatchMem.tokens, add_comm]
    · simp [hfree, hempty, DispatchMem.tokens, DispatchMem.post]
  · have hne : notification q' ≠ notification q := fun h => hq (notification_injective h)
    by_cases harmed : s.armed q'
    · simp [harmed, hq]
    · by_cases hempty : (s.waiting q').isEmpty
      · simp [harmed, hempty, hq, DispatchMem.tokens, Function.update_of_ne (Ne.symm hq)]
      · simp [harmed, hempty, hq, DispatchMem.tokens, DispatchMem.post, List.count_cons_of_ne hne]

/-- A completion turns an armed notification into a posted one. -/
theorem tokens_complete (result : R) : (s.complete q' result).tokens q = s.tokens q := by
  unfold DispatchMem.complete
  by_cases harmed : s.armed q'
  · by_cases hq : q' = q
    · subst hq
      simp [harmed, DispatchMem.tokens, DispatchMem.post, add_comm]
    · have hne : notification q' ≠ notification q := fun h => hq (notification_injective h)
      simp [harmed, DispatchMem.tokens, DispatchMem.post, List.count_cons_of_ne hne,
        Function.update_of_ne (Ne.symm hq)]
  · simp [harmed, DispatchMem.tokens]

variable {s}

theorem tokens_erase {packet : IocpPacket Q} (h : packet ∈ s.packets) :
    ({ s with packets := s.packets.erase packet } : DispatchMem Q R).tokens q +
      (if packet = notification q then 1 else 0) = s.tokens q := by
  have hcount := List.count_erase (a := notification q) (b := packet) (l := s.packets)
  by_cases hp : packet = notification q
  · subst hp
    have hpos := List.count_pos_iff.mpr h
    simp only [beq_self_eq_true, if_true] at hcount
    simp only [DispatchMem.tokens, if_true]
    omega
  · have hbeq : (packet == notification q) = false := beq_false_of_ne hp
    simp only [hbeq, Bool.false_eq_true, if_false] at hcount
    simp only [DispatchMem.tokens, hp, if_false]
    omega

end Tokens

namespace DispatchFrame

@[simp] theorem drains_of_left {f : DispatchFrame Q R} {q : Q} (h : f.left q = 0) :
    f.drains q = 0 := if_pos h

theorem drains_eq_one {f : DispatchFrame Q R} {q : Q} (h : f.left q ≠ 0) : f.drains q = 1 :=
  if_neg h

theorem drains_succeeded (packet : IocpPacket Q) (q : Q) :
    (.succeeded packet : DispatchFrame Q R).drains q = if packet = notification q then 1 else 0 := by
  unfold drains left
  split_ifs <;> simp_all

theorem drains_failed (errorCode : ℕ) (packet : IocpPacket Q) (q : Q) :
    (.failed errorCode (some packet) : DispatchFrame Q R).drains q =
      if packet = notification q then 1 else 0 := by
  unfold drains left
  split_ifs <;> simp_all

theorem drains_dispatch (q' q : Q) :
    (.dispatch q' : DispatchFrame Q R).drains q = if q' = q then 1 else 0 := by
  unfold drains left
  split_ifs <;> simp_all

theorem drains_dequeuing (q' q : Q) :
    (.dequeuing q' : DispatchFrame Q R).drains q = if q' = q then 1 else 0 := by
  unfold drains left
  split_ifs <;> simp_all

theorem drains_notify (q' q : Q) (numResult : ℕ) (results : List R) :
    (.notify q' numResult results : DispatchFrame Q R).drains q = if q' = q then 1 else 0 := by
  unfold drains left
  split_ifs <;> simp_all

end DispatchFrame

/-- Neither does a notification or a drainer of `q` come out of nothing, nor does one get lost. -/
structure NotifyBalance (q : Q) (s : DispatchMem Q R) (f : DispatchFrame Q R) (s' : DispatchMem Q R)
    (new : List (DispatchFrame Q R)) : Prop where
  once : s'.tokens q + stackWeight (DispatchFrame.drains q) new +
      stackWeight (DispatchFrame.arms q) new + s.isCreated q ≤
    s.tokens q + f.drains q + f.arms q + s'.isCreated q
  listed : s.tokens q + f.drains q + stackWeight (DispatchFrame.lists q) new + s'.listed q ≤
    s'.tokens q + stackWeight (DispatchFrame.drains q) new + f.lists q + s.listed q

namespace NotifyBalance

variable {q q' : Q} {s s' : DispatchMem Q R} {f f' : DispatchFrame Q R}
  {new : List (DispatchFrame Q R)}

/-- Frames that have nothing to do with `q`. -/
theorem quiet (hleft : f.left q = 0) (harms : f.arms q = 0) (hlists : f.lists q = 0)
    (hnew : ∀ g ∈ new, g.left q = 0 ∧ g.arms q = 0 ∧ g.lists q = 0) : NotifyBalance q s f s new := by
  have hdrains := DispatchFrame.drains_of_left hleft
  have hd : stackWeight (DispatchFrame.drains q) new = 0 :=
    stackWeight_eq_zero fun g hg => DispatchFrame.drains_of_left (hnew g hg).1
  have ha : stackWeight (DispatchFrame.arms q) new = 0 :=
    stackWeight_eq_zero fun g hg => (hnew g hg).2.1
  have hl : stackWeight (DispatchFrame.lists q) new = 0 :=
    stackWeight_eq_zero fun g hg => (hnew g hg).2.2
  constructor <;> omega

/-- The thread goes on with the same task, and no notification is touched. -/
theorem goesOn (htokens : s'.tokens q = s.tokens q) (hcreated : s'.isCreated q = s.isCreated q)
    (hlisted : s'.listed q = s.listed q) (hdrains : f'.drains q = f.drains q)
    (harms : f'.arms q = f.arms q) (hlists : f'.lists q = f.lists q) :
    NotifyBalance q s f s' [f'] := by
  constructor
  · simp only [stackWeight_cons, stackWeight_nil]
    omega
  · simp only [stackWeight_cons, stackWeight_nil]
    omega

/-- A packet goes from the port to the thread. -/
theorem taken {packet : IocpPacket Q} (hmem : packet ∈ s.packets)
    (hdrains : f'.drains q = if packet = notification q then 1 else 0) (harms : f'.arms q = 0)
    (hlists : f'.lists q = 0) :
    NotifyBalance q s .processDispatch { s with packets := s.packets.erase packet } [f'] := by
  have herase := tokens_erase q hmem
  have hnone : (DispatchFrame.processDispatch : DispatchFrame Q R).drains q = 0 := rfl
  have hcreated : ({ s with packets := s.packets.erase packet } : DispatchMem Q R).isCreated q =
    s.isCreated q := rfl
  have hlisted : ({ s with packets := s.packets.erase packet } : DispatchMem Q R).listed q =
    s.listed q := rfl
  constructor
  · simp only [stackWeight_cons, stackWeight_nil]
    omega
  · simp only [stackWeight_cons, stackWeight_nil]
    omega

/-- `RIONotify(q')` makes a notification of what the thread was to do about `q'`. -/
theorem notified (hone : s.tokens q + f.drains q + f.arms q ≤ 1)
    (hbefore : f.drains q + f.arms q = if q' = q then 1 else 0)
    (hlist : f.drains q + f'.lists q = if q' = q then 1 else 0) (hdrains : f'.drains q = 0)
    (harms : f'.arms q = 0) : NotifyBalance q s f (s.rioNotify q') [f'] := by
  have htokens := tokens_rioNotify s q q' (by omega)
  have hcreated := rioNotify_isCreated s q q'
  have hlisted := rioNotify_listed s q q'
  constructor
  · simp only [stackWeight_cons, stackWeight_nil]
    omega
  · simp only [stackWeight_cons, stackWeight_nil]
    omega

end NotifyBalance

/-- What a step does to the notifications and the drainers of a queue. -/
theorem DispatchStep.balance {s s' : DispatchMem Q R} {f : DispatchFrame Q R}
    {new : List (DispatchFrame Q R)} (h : DispatchStep s f s' new) (hok : s.FrameOk f) (q : Q)
    (hone : s.tokens q + f.drains q + f.arms q ≤ 1) : NotifyBalance q s f s' new := by
  cases h with
  | timeOut =>
    apply NotifyBalance.quiet rfl rfl rfl
    simp [DispatchFrame.left, DispatchFrame.arms, DispatchFrame.lists]
  | succeed packet hmem =>
    exact .taken hmem (DispatchFrame.drains_succeeded packet q) rfl rfl
  | fail errorCode packet hmem _ =>
    exact .taken hmem (DispatchFrame.drains_failed errorCode packet q) rfl rfl
  | received f q' hf =>
    have hiff : notification q' = notification q ↔ q' = q :=
      ⟨notification_injective, congrArg notification⟩
    have hdrains : f.drains q = if q' = q then 1 else 0 := by
      rcases hf with rfl | ⟨errorCode, rfl⟩
      · rw [DispatchFrame.drains_succeeded]
        simp only [hiff]
      · rw [DispatchFrame.drains_failed]
        simp only [hiff]
    have hafter := (DispatchFrame.drains_dispatch (R := R) q' q).trans hdrains.symm
    rcases hf with rfl | ⟨errorCode, rfl⟩
    · exact .goesOn rfl rfl rfl hafter rfl rfl
    · exact .goesOn rfl rfl rfl hafter rfl rfl
  | timedOut packet =>
    cases packet with
    | none => exact .quiet rfl rfl rfl (by simp)
    | some packet => exact absurd rfl hok.1
  | other f new hleft harms hlists hnew =>
    apply NotifyBalance.quiet (hleft q) (harms q) (hlists q)
    rcases hnew with rfl | rfl <;>
      simp [DispatchFrame.left, DispatchFrame.arms, DispatchFrame.lists]
  | dispatch q' =>
    refine .goesOn rfl rfl rfl ?_ rfl rfl
    rw [DispatchFrame.drains_dispatch, DispatchFrame.drains_dequeuing]
  | corrupt q' =>
    refine .goesOn rfl rfl rfl ?_ rfl rfl
    rw [DispatchFrame.drains_dequeuing, DispatchFrame.drains_notify]
  | dequeue q' numResult =>
    refine .goesOn rfl rfl rfl ?_ rfl rfl
    rw [DispatchFrame.drains_dequeuing, DispatchFrame.drains_notify]
  | notify q' numResult results =>
    have hdrains := DispatchFrame.drains_notify q' q numResult results
    exact .notified hone hdrains hdrains rfl rfl
  | check numResult results new hnew =>
    apply NotifyBalance.quiet rfl rfl rfl
    rcases hnew with rfl | rfl <;>
      simp [DispatchFrame.left, DispatchFrame.arms, DispatchFrame.lists]
  | deliver r results =>
    apply NotifyBalance.quiet rfl rfl rfl
    simp [DispatchFrame.left, DispatchFrame.arms, DispatchFrame.lists]
  | create q' hnew =>
    have hcreated : ({ s with created := q' :: s.created } : DispatchMem Q R).isCreated q =
        s.isCreated q + if q' = q then 1 else 0 := by
      by_cases hq : q' = q
      · subst hq
        simp [DispatchMem.isCreated, hnew]
      · simp [DispatchMem.isCreated, hq, Ne.symm hq]
    have hnone : (DispatchFrame.createRIOCQ : DispatchFrame Q R).drains q = 0 := rfl
    have harm : (DispatchFrame.arm q' : DispatchFrame Q R).drains q = 0 := rfl
    have htokens : ({ s with created := q' :: s.created } : DispatchMem Q R).tokens q =
      s.tokens q := rfl
    have hlisted : ({ s with created := q' :: s.created } : DispatchMem Q R).listed q =
      s.listed q := rfl
    constructor
    · simp only [stackWeight_cons, stackWeight_nil, DispatchFrame.arms, hcreated, hnone, harm,
        htokens]
      omega
    · simp only [stackWeight_cons, stackWeight_nil, DispatchFrame.lists, hnone, harm, htokens,
        hlisted]
      omega
  | arm q' => exact .notified hone (zero_add _) (zero_add _) rfl rfl
  | armFailed q' =>
    have hbefore : (DispatchFrame.arm q' : DispatchFrame Q R).drains q = 0 := rfl
    constructor
    · simp only [stackWeight_nil, hbefore]
      omega
    · simp only [stackWeight_nil, DispatchFrame.lists, hbefore]
      omega
  | setService q' => exact .goesOn rfl rfl rfl rfl rfl rfl
  | pushBack q' =>
    have hbefore : (DispatchFrame.pushBack q' : DispatchFrame Q R).drains q = 0 := rfl
    have hlisted : ({ s with mRioCQEventList := s.mRioCQEventList ++ [q'] } :
        DispatchMem Q R).listed q ≤ s.listed q + if q' = q then 1 else 0 := by
      simp only [DispatchMem.listed, List.mem_append, List.mem_singleton, eq_comm (a := q)]
      split_ifs <;> simp_all
    have htokens : ({ s with mRioCQEventList := s.mRioCQEventList ++ [q'] } :
        DispatchMem Q R).tokens q = s.tokens q := rfl
    have hcreated : ({ s with mRioCQEventList := s.mRioCQEventList ++ [q'] } :
        DispatchMem Q R).isCreated q = s.isCreated q := rfl
    constructor
    · simp only [stackWeight_nil, hbefore, htokens, hcreated]
      omega
    · simp only [stackWeight_nil, DispatchFrame.lists, hbefore, htokens]
      omega

namespace DispatchMem

omit [DecidableEq Q] in
theorem PacketOk.mono {s s' : DispatchMem Q R} {packet : IocpPacket Q} (h : s.PacketOk packet)
    (hs : ∀ q, s.mService q = true → s'.mService q = true) : s'.PacketOk packet := by
  rcases h with ⟨q, hq, hservice⟩ | hother
  · exact .inl ⟨q, hq, hs q hservice⟩
  · exact .inr hother

omit [DecidableEq Q] in
theorem FrameOk.mono {s s' : DispatchMem Q R} {f : DispatchFrame Q R} (h : s.FrameOk f)
    (hs : ∀ q, s.mService q = true → s'.mService q = true) : s'.FrameOk f := by
  cases f with
  | succeeded packet => exact PacketOk.mono h hs
  | failed errorCode packet =>
    cases packet with
    | none => exact h
    | some packet => exact ⟨h.1, PacketOk.mono h.2 hs⟩
  | pushBack q => exact hs q h
  | _ => trivial

/-- What holds of the memory alone. -/
structure Ok (s : DispatchMem Q R) : Prop where
  packets : ∀ packet ∈ s.packets, s.PacketOk packet
  waiting : ∀ q, s.waiting q ≠ [] → s.mService q = true
  listed : ∀ q ∈ s.mRioCQEventList, s.mService q = true
  armed : ∀ q, s.armed q = true → s.waiting q = []

omit [DecidableEq Q] in
theorem Ok.init : (.init : DispatchMem Q R).Ok := by
  constructor <;> simp [DispatchMem.init]

omit [DecidableEq Q] in
theorem Ok.post {s : DispatchMem Q R} (h : s.Ok) {packet : IocpPacket Q}
    (hp : s.PacketOk packet) : (s.post packet).Ok := by
  refine ⟨?_, h.waiting, h.listed, h.armed⟩
  intro p hmem
  rcases List.mem_cons.mp hmem with rfl | hmem
  · exact hp
  · exact h.packets p hmem

theorem Ok.rioNotify {s : DispatchMem Q R} (h : s.Ok) (q : Q) : (s.rioNotify q).Ok := by
  unfold DispatchMem.rioNotify
  split_ifs with harmed hempty
  · exact h
  · refine ⟨h.packets, h.waiting, h.listed, ?_⟩
    intro q' hq'
    by_cases hq : q' = q
    · subst hq
      exact List.isEmpty_iff.mp hempty
    · apply h.armed
      simpa [hq] using hq'
  · apply h.post
    exact .inl ⟨q, rfl, h.waiting q (by simpa using hempty)⟩

theorem Ok.complete {s : DispatchMem Q R} (h : s.Ok) {q : Q} (hq : q ∈ s.mRioCQEventList)
    (result : R) : (s.complete q result).Ok := by
  have hservice := h.listed q hq
  have hwaiting (q' : Q)
      (hne : Function.update s.waiting q (s.waiting q ++ [result]) q' ≠ []) :
      s.mService q' = true := by
    by_cases hq' : q' = q
    · subst hq'
      exact hservice
    · apply h.waiting
      simpa [hq'] using hne
  unfold DispatchMem.complete
  by_cases harmed : s.armed q = true
  · simp only [harmed, if_true]
    apply Ok.post
    · refine ⟨h.packets, hwaiting, h.listed, ?_⟩
      intro q' hq'
      have hne : q' ≠ q := by
        intro heq
        simp [heq] at hq'
      simp only [Function.update_of_ne hne] at hq' ⊢
      exact h.armed q' hq'
    · exact .inl ⟨q, rfl, hservice⟩
  · simp only [harmed, if_false, Bool.false_eq_true]
    refine ⟨h.packets, hwaiting, h.listed, ?_⟩
    intro q' hq'
    have hne : q' ≠ q := by
      intro heq
      exact harmed (heq ▸ hq')
    simp only [Function.update_of_ne hne]
    exact h.armed q' hq'

end DispatchMem

theorem rioNotify_mService (s : DispatchMem Q R) (q q' : Q) :
    (s.rioNotify q').mService q = s.mService q := by
  unfold DispatchMem.rioNotify
  split_ifs <;> rfl

theorem DispatchStep.service {s s' : DispatchMem Q R} {f : DispatchFrame Q R}
    {new : List (DispatchFrame Q R)} (h : DispatchStep s f s' new) (q : Q)
    (hs : s.mService q = true) : s'.mService q = true := by
  cases h with
  | notify => rwa [rioNotify_mService]
  | arm => rwa [rioNotify_mService]
  | setService q' =>
    by_cases hq : q = q'
    · subst hq
      exact Function.update_self ..
    · show Function.update s.mService q' true q = true
      rwa [Function.update_of_ne hq]
  | _ => exact hs

/-- A step keeps the memory sound, and so are the frames it leaves. -/
theorem DispatchStep.ok {s s' : DispatchMem Q R} {f : DispatchFrame Q R}
    {new : List (DispatchFrame Q R)} (h : DispatchStep s f s' new) (hs : s.Ok) (hf : s.FrameOk f) :
    s'.Ok ∧ ∀ g ∈ new, s'.FrameOk g := by
  have taken (packet : IocpPacket Q) :
      ({ s with packets := s.packets.erase packet } : DispatchMem Q R).Ok :=
    ⟨fun p hp => hs.packets p (List.mem_of_mem_erase hp), hs.waiting, hs.listed, hs.armed⟩
  cases h with
  | timeOut => exact ⟨hs, by simp [DispatchMem.FrameOk]⟩
  | succeed packet hmem =>
    refine ⟨taken packet, ?_⟩
    intro g hg
    obtain rfl := List.mem_singleton.mp hg
    exact hs.packets packet hmem
  | fail errorCode packet hmem hcode =>
    refine ⟨taken packet, ?_⟩
    intro g hg
    obtain rfl := List.mem_singleton.mp hg
    exact ⟨hcode, hs.packets packet hmem⟩
  | received f q _ => exact ⟨hs, by simp [DispatchMem.FrameOk]⟩
  | timedOut packet => exact ⟨hs, by simp⟩
  | other f new _ _ _ hnew =>
    refine ⟨hs, ?_⟩
    rcases hnew with rfl | rfl <;> simp [DispatchMem.FrameOk]
  | dispatch q => exact ⟨hs, by simp [DispatchMem.FrameOk]⟩
  | corrupt q => exact ⟨hs, by simp [DispatchMem.FrameOk]⟩
  | dequeue q numResult =>
    have drop (q' : Q) (hne : Function.update s.waiting q ((s.waiting q).drop numResult) q' ≠ []) :
        s.waiting q' ≠ [] := by
      intro hempty
      by_cases hq : q' = q
      · subst hq
        simp [hempty] at hne
      · rw [Function.update_of_ne hq] at hne
        exact hne hempty
    refine ⟨⟨hs.packets, fun q' hq' => hs.waiting q' (drop q' hq'), hs.listed, ?_⟩,
      by simp [DispatchMem.FrameOk]⟩
    intro q' hq'
    by_contra hne
    exact drop q' hne (hs.armed q' hq')
  | notify q numResult results => exact ⟨hs.rioNotify q, by simp [DispatchMem.FrameOk]⟩
  | check numResult results new hnew =>
    refine ⟨hs, ?_⟩
    rcases hnew with rfl | rfl <;> simp [DispatchMem.FrameOk]
  | deliver r results => exact ⟨hs, by simp [DispatchMem.FrameOk]⟩
  | create q _ =>
    refine ⟨⟨hs.packets, hs.waiting, hs.listed, hs.armed⟩, by simp [DispatchMem.FrameOk]⟩
  | arm q => exact ⟨hs.rioNotify q, by simp [DispatchMem.FrameOk]⟩
  | armFailed q => exact ⟨hs, by simp⟩
  | setService q =>
    have grow (q' : Q) (hq' : s.mService q' = true) :
        Function.update s.mService q true q' = true := by
      by_cases hq : q' = q
      · subst hq
        exact Function.update_self ..
      · rwa [Function.update_of_ne hq]
    refine ⟨⟨fun p hp => (hs.packets p hp).mono grow, fun q' hq' => grow q' (hs.waiting q' hq'),
      fun q' hq' => grow q' (hs.listed q' hq'), hs.armed⟩, ?_⟩
    intro g hg
    obtain rfl := List.mem_singleton.mp hg
    exact Function.update_self ..
  | pushBack q =>
    refine ⟨⟨hs.packets, hs.waiting, ?_, hs.armed⟩, by simp⟩
    intro q' hq'
    rcases List.mem_append.mp hq' with hq' | hq'
    · exact hs.listed q' hq'
    · rw [List.mem_singleton.mp hq']
      exact hf

omit [DecidableEq Q] in
theorem dispatchEnter_spec {s s' : DispatchMem Q R} {frames : T → List (DispatchFrame Q R)} {t : T}
    {c : DispatchChoice Q R} {f : DispatchFrame Q R}
    (h : dispatchEnter s frames t c = some (s', f)) :
    s' = s ∧ frames t = [] ∧ (f = .processDispatch ∨ f = .createRIOCQ) := by
  cases c <;> simp only [dispatchEnter, reduceCtorEq] at h <;>
    split at h <;> simp only [reduceCtorEq, Option.some.injEq, Prod.mk.injEq] at h
  · next hidle => exact ⟨h.1.symm, List.isEmpty_iff.mp hidle, .inl h.2.symm⟩
  · next hidle => exact ⟨h.1.symm, List.isEmpty_iff.mp hidle, .inr h.2.symm⟩

/-- What an outside event leaves as it was. -/
theorem dispatchEnv_spec {s s' : DispatchMem Q R} {c : DispatchChoice Q R}
    (h : dispatchEnv s c = some s') (hs : s.Ok) :
    s'.Ok ∧ (∀ q, s'.mService q = s.mService q) ∧ (∀ q, s'.tokens q = s.tokens q) ∧
      s'.created = s.created ∧ s'.mRioCQEventList = s.mRioCQEventList := by
  cases c <;> simp only [dispatchEnv, reduceCtorEq] at h
  case complete q result =>
    split at h <;> simp only [reduceCtorEq, Option.some.injEq] at h
    next hq =>
    subst h
    refine ⟨hs.complete hq result, ?_, fun q' => tokens_complete s q' q result, ?_, ?_⟩
    · intro q'
      unfold DispatchMem.complete
      split_ifs <;> rfl
    · unfold DispatchMem.complete
      split_ifs <;> rfl
    · unfold DispatchMem.complete
      split_ifs <;> rfl
  case corrupt q =>
    rw [Option.some.injEq] at h
    subst h
    exact ⟨⟨hs.packets, hs.waiting, hs.listed, hs.armed⟩, fun _ => rfl, fun _ => rfl, rfl, rfl⟩
  case post iocpContext =>
    rw [Option.some.injEq] at h
    subst h
    refine ⟨hs.post (.inr ⟨rfl, by simp⟩), fun _ => rfl, ?_, rfl, rfl⟩
    intro q
    have hne : (⟨0, iocpContext.map .operation⟩ : IocpPacket Q) ≠ notification q := by
      simp [notification, rioIocpCompletion]
    show _ + List.count _ (_ :: s.packets) = _
    rw [List.count_cons_of_ne hne]
    rfl

section Run

variable [Fintype T]

/-- Each queue has one notification, or one thread that drains it, from its first `RIONotify` on. -/
structure DispatchInv (s : DispatchConf T Q R) : Prop where
  ok : s.mem.Ok
  frames : ∀ t, ∀ f ∈ s.frames t, s.mem.FrameOk f
  once : ∀ q, s.mem.tokens q + weight (DispatchFrame.drains q) s.frames +
    weight (DispatchFrame.arms q) s.frames ≤ s.mem.isCreated q
  listed : ∀ q, weight (DispatchFrame.lists q) s.frames + s.mem.listed q ≤
    s.mem.tokens q + weight (DispatchFrame.drains q) s.frames

theorem DispatchInv.start : DispatchInv (dispatchStart : DispatchConf T Q R) := by
  refine ⟨DispatchMem.Ok.init, by simp [dispatchStart], ?_, ?_⟩
  · intro q
    simp [dispatchStart, DispatchMem.init, DispatchMem.tokens]
  · intro q
    simp [dispatchStart, DispatchMem.init, DispatchMem.listed]

variable [DecidableEq T]

theorem DispatchInv.next {s s' : DispatchConf T Q R} {a : Action T (DispatchChoice Q R)}
    (h : DispatchInv s) (hs' : dispatchMachine.next s a = some s') : DispatchInv s' := by
  rcases Machine.next_cases hs' with ⟨t, c, mem, f, rfl, he, rfl⟩ |
    ⟨t, c, f, fs, mem, new, rfl, hs, he, rfl⟩ | ⟨c, mem, rfl, he, rfl⟩
  · obtain ⟨rfl, _, hf⟩ := dispatchEnter_spec he
    have hzero (q : Q) : f.drains q = 0 ∧ f.arms q = 0 ∧ f.lists q = 0 := by
      rcases hf with rfl | rfl <;> exact ⟨rfl, rfl, rfl⟩
    refine ⟨h.ok, ?_, ?_, ?_⟩
    · intro u g hg
      rcases mem_push hg with rfl | hg
      · rcases hf with rfl | rfl <;> trivial
      · exact h.frames u g hg
    · intro q
      rw [weight_push s.frames t (hzero q).1, weight_push s.frames t (hzero q).2.1]
      exact h.once q
    · intro q
      rw [weight_push s.frames t (hzero q).1, weight_push s.frames t (hzero q).2.2]
      exact h.listed q
  · have hstep : DispatchStep s.mem f mem new := dispatchStep_spec (t := t) he
    have hf : s.mem.FrameOk f := h.frames t f (by rw [hs]; exact List.mem_cons_self ..)
    obtain ⟨hok, hnew⟩ := hstep.ok h.ok hf
    have hbalance (q : Q) := by
      apply hstep.balance hf q
      have honce := h.once q
      have hdrains := top_le_weight (DispatchFrame.drains q) hs
      have harms := top_le_weight (DispatchFrame.arms q) hs
      have hcreated : s.mem.isCreated q ≤ 1 := by
        unfold DispatchMem.isCreated
        split_ifs <;> simp
      omega
    have hsum (w : DispatchFrame Q R → ℕ) :
        weight w (Function.update s.frames t (new ++ fs)) + w f =
          weight w s.frames + stackWeight w new := weight_step w hs new
    refine ⟨hok, ?_, ?_, ?_⟩
    · intro u g hg
      rcases mem_update new hg with ⟨_, hg⟩ | hother
      · exact hnew g hg
      · exact (h.frames u g (hother.mem hs)).mono hstep.service
    · intro q
      have honce := h.once q
      have hdrains := hsum (DispatchFrame.drains q)
      have harms := hsum (DispatchFrame.arms q)
      have hq := (hbalance q).once
      show mem.tokens q + weight _ (Function.update s.frames t (new ++ fs)) +
        weight _ (Function.update s.frames t (new ++ fs)) ≤ mem.isCreated q
      omega
    · intro q
      have hlisted := h.listed q
      have hdrains := hsum (DispatchFrame.drains q)
      have hlists := hsum (DispatchFrame.lists q)
      have hq := (hbalance q).listed
      show weight _ (Function.update s.frames t (new ++ fs)) + mem.listed q ≤
        mem.tokens q + weight _ (Function.update s.frames t (new ++ fs))
      omega
  · obtain ⟨hok, hservice, htokens, hcreated, hlisted⟩ := dispatchEnv_spec he h.ok
    refine ⟨hok, ?_, ?_, ?_⟩
    · intro u g hg
      apply (h.frames u g hg).mono
      intro q hq
      rwa [hservice]
    · intro q
      show mem.tokens q + _ + _ ≤ mem.isCreated q
      rw [htokens, DispatchMem.isCreated, hcreated]
      exact h.once q
    · intro q
      show _ + mem.listed q ≤ mem.tokens q + _
      rw [htokens, DispatchMem.listed, hlisted]
      exact h.listed q

theorem DispatchReachable.inv {s : DispatchConf T Q R} (h : DispatchReachable s) : DispatchInv s :=
  Machine.Reach.invariant DispatchInv h .start fun _ _ _ _ hi _ hs => hi.next hs

omit [Fintype T] in
/-- No frame lies below another but the loop over the results. -/
theorem DispatchReachable.below {s : DispatchConf T Q R} (h : DispatchReachable s) :
    ∀ t, ∀ f ∈ (s.frames t).tail, ∀ q, f.left q = 0 := by
  apply Machine.Reach.invariant (fun s => ∀ t, ∀ f ∈ (s.frames t).tail, ∀ q, f.left q = 0) h
  · simp [dispatchStart]
  · intro s a s' _ hkeep _ hs'
    apply Machine.suspended_next _ _ hs' hkeep
    · intro mem t f c mem' new he g hg
      have hstep : DispatchStep mem f mem' new := dispatchStep_spec (t := t) he
      cases hstep with
      | deliver r results =>
        intro q
        obtain rfl := List.mem_singleton.mp hg
        rfl
      | other f new _ _ _ hnew => rcases hnew with rfl | rfl <;> simp at hg
      | check numResult results new hnew => rcases hnew with rfl | rfl <;> simp at hg
      | _ => simp at hg
    · intro mem frames t c r he f hf
      obtain ⟨_, hidle, _⟩ := dispatchEnter_spec he
      simp [hidle] at hf

end Run

section Progress

variable {s s' : DispatchMem Q R} {f : DispatchFrame Q R} {q : Q}

theorem succeeded_of_left {packet : IocpPacket Q}
    (h : 0 < (.succeeded packet : DispatchFrame Q R).left q) : packet = notification q := by
  by_contra hne
  simp [DispatchFrame.left, hne] at h

theorem failed_of_left {errorCode : ℕ} {packet : Option (IocpPacket Q)}
    (h : 0 < (.failed errorCode packet : DispatchFrame Q R).left q) :
    packet = some (notification q) := by
  by_contra hne
  simp [DispatchFrame.left, hne] at h

/-- A step of the thread that drains `q` brings it nearer to `RIONotify(q)`. -/
theorem DispatchStep.nearer {new : List (DispatchFrame Q R)} (h : DispatchStep s f s' new)
    (hf : s.FrameOk f) (hleft : 0 < f.left q) :
    (∃ f', new = [f'] ∧ f'.left q + 1 = f.left q ∧ 0 < f'.left q) ∨ s' = s.rioNotify q := by
  cases h with
  | received f q' hf' =>
    refine .inl ⟨_, rfl, ?_⟩
    rcases hf' with rfl | ⟨errorCode, rfl⟩
    · have hq := notification_injective (succeeded_of_left hleft)
      simp [DispatchFrame.left, hq]
    · have hq := notification_injective (Option.some.inj (failed_of_left hleft))
      simp [DispatchFrame.left, hq]
  | timedOut packet =>
    cases packet with
    | none => simp [DispatchFrame.left] at hleft
    | some packet => exact absurd rfl hf.1
  | other f new hzero _ _ _ => simp [hzero q] at hleft
  | dispatch q' =>
    by_cases hq : q' = q
    · exact .inl ⟨_, rfl, by simp [DispatchFrame.left, hq]⟩
    · simp [DispatchFrame.left, hq] at hleft
  | corrupt q' =>
    by_cases hq : q' = q
    · exact .inl ⟨_, rfl, by simp [DispatchFrame.left, hq]⟩
    · simp [DispatchFrame.left, hq] at hleft
  | dequeue q' numResult =>
    by_cases hq : q' = q
    · exact .inl ⟨_, rfl, by simp [DispatchFrame.left, hq]⟩
    · simp [DispatchFrame.left, hq] at hleft
  | notify q' numResult results =>
    by_cases hq : q' = q
    · exact .inr (by rw [hq])
    · simp [DispatchFrame.left, hq] at hleft
  | _ => simp [DispatchFrame.left] at hleft

omit [DecidableEq Q] in
theorem DispatchMem.PacketOk.service (h : s.PacketOk (notification q)) : s.mService q = true := by
  rcases h with ⟨q', hq, hservice⟩ | ⟨_, hother⟩
  · rwa [notification_injective hq]
  · exact absurd rfl (hother q)

/-- Nothing on the way to `RIONotify(q)` waits or fails. -/
theorem dispatchStep_enabled (t : T) (hf : s.FrameOk f) (hleft : 0 < f.left q) :
    ∃ c, (dispatchStep s t f c).isSome := by
  cases f with
  | succeeded packet =>
    obtain rfl := succeeded_of_left hleft
    refine ⟨.go, ?_⟩
    simp [dispatchStep, processDispatchStep, notification, DispatchMem.serviceDispatch, hf.service]
  | failed errorCode packet =>
    obtain rfl := failed_of_left hleft
    refine ⟨.go, ?_⟩
    simp [dispatchStep, processDispatchStep, notification, DispatchMem.serviceDispatch,
      hf.2.service, hf.1]
  | dispatch q' => exact ⟨.go, rfl⟩
  | dequeuing q' =>
    refine ⟨.dequeue 0, ?_⟩
    by_cases hcorrupt : s.corrupt q' <;> simp [dispatchStep, serviceDispatchStep, hcorrupt]
  | notify q' numResult results => exact ⟨.go, rfl⟩
  | _ => simp [DispatchFrame.left] at hleft

end Progress

variable [Fintype T] [DecidableEq T]

/-- Thread `t` can go on, and with each step it comes nearer to `RIONotify(q)`, until it calls
that. -/
def WillNotify (s : DispatchConf T Q R) (t : T) (q : Q) : Prop :=
  ∃ f fs, s.frames t = f :: fs ∧ 0 < f.left q ∧
    (∃ c, (dispatchMachine.next s (.step t c)).isSome) ∧
    ∀ c s', dispatchMachine.next s (.step t c) = some s' →
      (∃ f', s'.frames t = f' :: fs ∧ f'.left q + 1 = f.left q ∧ 0 < f'.left q) ∨
      s'.mem = s.mem.rioNotify q

theorem DispatchReachable.willNotify {s : DispatchConf T Q R} (h : DispatchReachable s) {t : T}
    {f : DispatchFrame Q R} {q : Q} (hf : f ∈ s.frames t) (hleft : 0 < f.left q) :
    WillNotify s t q := by
  cases hs : s.frames t with
  | nil => simp [hs] at hf
  | cons g fs =>
    have hbelow := h.below t
    rw [hs] at hf hbelow
    rcases List.mem_cons.mp hf with rfl | hf
    · have hok : s.mem.FrameOk f := h.inv.frames t f (by rw [hs]; exact List.mem_cons_self ..)
      refine ⟨f, fs, hs, hleft, ?_, ?_⟩
      · obtain ⟨c, hc⟩ := dispatchStep_enabled t hok hleft
        refine ⟨c, ?_⟩
        rw [Machine.next, hs]
        simpa [dispatchMachine] using hc
      · intro c s' hs'
        simp only [Machine.next, hs, Option.map_eq_some_iff] at hs'
        obtain ⟨⟨mem, new⟩, he, rfl⟩ := hs'
        have hstep : DispatchStep s.mem f mem new := dispatchStep_spec (t := t) he
        rcases hstep.nearer hok hleft with ⟨f', rfl, hnear⟩ | hnotify
        · exact .inl ⟨f', Function.update_self .., hnear⟩
        · exact .inr hnotify
    · simp [hbelow f hf q] at hleft

/-- A completion queue is drained by one thread at a time, and at any time it is armed, or its one
packet is posted, or one thread drains it and will call `RIONotify`. -/
theorem queues_drained_once {s : DispatchConf T Q R} (h : DispatchReachable s) :
    (∀ q t u, (∃ f ∈ s.frames t, f.receiving q) → (∃ f ∈ s.frames u, f.receiving q) → t = u) ∧
    ∀ q ∈ s.mem.mRioCQEventList,
      (s.mem.armed q).toNat + s.mem.packets.count (notification q) +
        weight (DispatchFrame.drains q) s.frames = 1 ∧
      ∀ t, (∃ f ∈ s.frames t, 0 < f.left q) → WillNotify s t q := by
  have hcreated (q : Q) : s.mem.isCreated q ≤ 1 := by
    unfold DispatchMem.isCreated
    split_ifs <;> simp
  constructor
  · intro q t u ht hu
    by_contra hne
    have share (v : T) (hv : ∃ f ∈ s.frames v, f.receiving q) :
        1 ≤ stackWeight (DispatchFrame.drains q) (s.frames v) := by
      obtain ⟨f, hf, hreceiving⟩ := hv
      have hleft : f.left q ≠ 0 := by
        intro hzero
        simp [DispatchFrame.receiving, hzero] at hreceiving
      calc 1 = f.drains q := (DispatchFrame.drains_eq_one hleft).symm
        _ ≤ _ := le_stackWeight (DispatchFrame.drains q) hf
    have htwo := weight_two (DispatchFrame.drains q) s.frames hne
    have honce := h.inv.once q
    have hone := hcreated q
    have ht' := share t ht
    have hu' := share u hu
    omega
  · intro q hq
    constructor
    · have honce := h.inv.once q
      have hone := hcreated q
      have hlisted := h.inv.listed q
      have hlist : s.mem.listed q = 1 := if_pos hq
      show s.mem.tokens q + _ = 1
      omega
    · intro t ht
      obtain ⟨f, hf, hleft⟩ := ht
      exact h.willNotify hf hleft

/-- A completion arrives in a new queue while two threads wait for packets. -/
def arrival : List (Action Bool (DispatchChoice Unit ℕ)) :=
  [.enter true .callCreateRIOCQ, .step true (.create (some ())), .step true (.notified true),
    .step true .go, .step true .go, .enter true .callProcessDispatch,
    .enter false .callProcessDispatch, .env (.complete () 7),
    .step true (.succeed (notification ())), .step true .go, .step true .go]

theorem queues_drained_once_arrival :
    ∃ s : DispatchConf Bool Unit ℕ, DispatchReachable s ∧ s.frames true = [.dequeuing ()] ∧
      s.mem.armed () = false ∧ WillNotify s true () := by
  have hr : DispatchReachable (dispatchMachine.final dispatchStart arrival (by decide)) :=
    Machine.reach_final dispatchMachine dispatchStart arrival _
  have hframes : (dispatchMachine.final dispatchStart arrival (by decide)).frames true =
      [.dequeuing ()] := by decide
  have hlist : () ∈ (dispatchMachine.final dispatchStart arrival (by decide)).mem.mRioCQEventList := by
    decide
  obtain ⟨_, hall⟩ := queues_drained_once hr
  refine ⟨_, hr, hframes, by decide, (hall () hlist).2 true ⟨.dequeuing (), ?_, by decide⟩⟩
  rw [hframes]
  exact List.mem_singleton_self _

/-- A listed queue in which completions wait is never just armed. -/
theorem waiting_noticed {s : DispatchConf T Q R} (h : DispatchReachable s) {q : Q}
    (hq : q ∈ s.mem.mRioCQEventList) (hwaiting : s.mem.waiting q ≠ []) :
    s.mem.packets.count (notification q) + weight (DispatchFrame.drains q) s.frames = 1 := by
  have hone := h.inv.once q
  have hlisted := h.inv.listed q
  have hlist : s.mem.listed q = 1 := if_pos hq
  have hunarmed : s.mem.armed q = false := by
    by_contra harmed
    exact hwaiting (h.inv.ok.armed q (by simpa using harmed))
  have hcreated : s.mem.isCreated q ≤ 1 := by
    unfold DispatchMem.isCreated
    split_ifs <;> simp
  simp only [DispatchMem.tokens, hunarmed, Bool.toNat_false] at hone hlisted
  omega

end ServerCore.Network
