import ServerCore.Database.DBService

namespace ServerCore.Database

open Framework ConcurrentQueue

variable {T X : Type} [DecidableEq T]

/-- What one step of the loop of `Launch` does. -/
inductive LoopStep (s : Mem T X) (t : T) : Frame T X → Mem T X → List (Frame T X) → Prop
  | wait (i) : LoopStep s t (.launch i) s [.launch i]
  | found (i) : LoopStep s t (.launch i) s [.isConnected i]
  | up (i) : (s.service i).mSession = some true → LoopStep s t (.isConnected i) s [.work i true]
  | down (i) : (s.service i).mSession = some false → LoopStep s t (.isConnected i) s [.tickTest i]
  | due (i) : LoopStep s t (.tickTest i) s [.reconnect i]
  | early (i) : LoopStep s t (.tickTest i) s [.work i false]
  | reconnect (i ok) : LoopStep s t (.reconnect i)
      (s.set i ((s.service i).Connect s.balancer.mConnectionString ok).2) [.backOff i]
  | backOff (i ticks) : LoopStep s t (.backOff i) { s with LEndTickCount := ticks } [.launch i]
  | work (i c) : LoopStep s t (.work i c) s [.execute i, .sleep i c]
  | sleep (i c) : LoopStep s t (.sleep i c) s [.launch i]

/-- Positions inside `Push`. -/
def Frame.pushing : Frame T X → Prop
  | .balance .. | .balanceData .. | .push .. | .enqueue .. => True
  | _ => False

/-- What one step of a thread does to the memory and to its top frame. -/
inductive Step (s : Mem T X) (t : T) : Frame T X → Mem T X → List (Frame T X) → Prop
  | refuse (f) : f.pushing → (∀ i job, f ≠ .enqueue i job) → Step s t f s []
  | balance (f i protocolId data handler) : f.pushing → (∀ i job, f ≠ .enqueue i job) →
      Step s t f s [.push i protocolId data handler]
  | push (i protocolId data handler) : Step s t (.push i protocolId (some data) handler)
      (s.fetchAdd t i ⟨protocolId, data, handler⟩) [.enqueue i ⟨protocolId, data, handler⟩]
  | enqueue (i job) : Step s t (.enqueue i job) (s.enqueueJob t i job) []
  | empty (i) : (s.service i).mQueueCount = 0 → Step s t (.execute i) (s.returnAtZero i) []
  | execute (i) : (s.service i).mQueueCount ≠ 0 → Step s t (.execute i) s [.dequeue i]
  | dequeue (i jobs rest) :
      (s.service i).mDBQueue.Perm (jobs ++ rest) →
      (∀ p, ofProducer p (s.service i).mDBQueue = ofProducer p jobs ++ ofProducer p rest) →
      Step s t (.dequeue i) (s.dequeued i rest) [.batch i jobs.length jobs]
  | handle (i jobCount job jobs) : Step s t (.batch i jobCount (job :: jobs)) (s.handle i job)
      [.handling i jobCount jobs]
  | call (i jobCount jobs f) : f.pushing → (∀ i job, f ≠ .enqueue i job) →
      Step s t (.handling i jobCount jobs) s [f, .handling i jobCount jobs]
  | handled (i jobCount jobs) : Step s t (.handling i jobCount jobs) s [.batch i jobCount jobs]
  | subLast (i) (jobCount : ℕ) : (s.service i).mQueueCount = jobCount →
      Step s t (.batch i jobCount []) ((s.fetchSub i jobCount).returnAtZero i) []
  | subMore (i) (jobCount : ℕ) : Step s t (.batch i jobCount []) (s.fetchSub i jobCount)
      [.execute i]
  | loop (f s' new) : LoopStep s t f s' new → Step s t f s' new

omit [DecidableEq T] in
theorem callPushed_spec {b : DBLoadBalancer T X} {r : Pushed X} {new : List (Frame T X)}
    (h : callPushed b r = some new) :
    new = [] ∨ ∃ i protocolId data handler, new = [.push i protocolId data handler] := by
  cases r with
  | refused =>
    simp only [callPushed, Option.some.injEq] at h
    exact .inl h.symm
  | divided => simp [callPushed] at h
  | called i protocolId data handler =>
    simp only [callPushed] at h
    split at h <;> simp only [Option.some.injEq, reduceCtorEq] at h
    exact .inr ⟨_, _, _, _, h.symm⟩

theorem launchStep_spec {s s' : Mem T X} {t : T} {f : Frame T X} {c : Choice T X}
    {new : List (Frame T X)} (h : launchStep s t f c = some (s', new)) : LoopStep s t f s' new := by
  cases f with
  | launch i =>
    cases c <;> simp only [launchStep, reduceCtorEq] at h
    split at h <;> simp only [Option.some.injEq, Prod.mk.injEq] at h <;> obtain ⟨rfl, rfl⟩ := h
    · exact .wait i
    · exact .found i
  | isConnected i =>
    cases c <;> simp only [launchStep, reduceCtorEq] at h
    cases hs : (s.service i).mSession with
    | none => simp [hs] at h
    | some connected =>
      simp only [hs, Option.some.injEq, Prod.mk.injEq] at h
      obtain ⟨rfl, rfl⟩ := h
      cases connected with
      | false => exact .down i hs
      | true => exact .up i hs
  | tickTest i =>
    cases c <;> simp only [launchStep, reduceCtorEq] at h
    split at h <;> simp only [Option.some.injEq, Prod.mk.injEq] at h <;> obtain ⟨rfl, rfl⟩ := h
    · exact .due i
    · exact .early i
  | reconnect i =>
    cases c <;> simp only [launchStep, reduceCtorEq, Option.some.injEq, Prod.mk.injEq] at h
    obtain ⟨rfl, rfl⟩ := h
    exact .reconnect i _
  | backOff i =>
    cases c <;> simp only [launchStep, reduceCtorEq, Option.some.injEq, Prod.mk.injEq] at h
    obtain ⟨rfl, rfl⟩ := h
    exact .backOff i _
  | work i c' =>
    cases c <;> simp only [launchStep, reduceCtorEq, Option.some.injEq, Prod.mk.injEq] at h
    obtain ⟨rfl, rfl⟩ := h
    exact .work i c'
  | sleep i c' =>
    cases c <;> simp only [launchStep, reduceCtorEq, Option.some.injEq, Prod.mk.injEq] at h
    obtain ⟨rfl, rfl⟩ := h
    exact .sleep i c'
  | _ => simp [launchStep] at h

theorem step_spec {s s' : Mem T X} {t : T} {f : Frame T X} {c : Choice T X}
    {new : List (Frame T X)} (h : step s t f c = some (s', new)) : Step s t f s' new := by
  cases f with
  | balance workId protocolId data handler =>
    cases c <;> simp only [step, pushStep, reduceCtorEq, Option.map_eq_some_iff,
      Prod.mk.injEq] at h
    obtain ⟨r, hr, rfl, rfl⟩ := h
    rcases callPushed_spec hr with rfl | ⟨i, protocolId', data', handler', rfl⟩
    · exact .refuse _ trivial (by simp)
    · exact .balance _ _ _ _ _ trivial (by simp)
  | balanceData data handler =>
    cases c <;> simp only [step, pushStep, reduceCtorEq, Option.map_eq_some_iff,
      Prod.mk.injEq] at h
    obtain ⟨r, hr, rfl, rfl⟩ := h
    rcases callPushed_spec hr with rfl | ⟨i, protocolId', data', handler', rfl⟩
    · exact .refuse _ trivial (by simp)
    · exact .balance _ _ _ _ _ trivial (by simp)
  | push i protocolId data handler =>
    cases c <;> simp only [step, reduceCtorEq] at h
    cases data with
    | none =>
      simp only [pushStep, Option.some.injEq, Prod.mk.injEq] at h
      obtain ⟨rfl, rfl⟩ := h
      exact .refuse _ trivial (by simp)
    | some data =>
      simp only [pushStep, Option.some.injEq, Prod.mk.injEq] at h
      obtain ⟨rfl, rfl⟩ := h
      exact .push ..
  | enqueue i job =>
    cases c <;> simp only [step, pushStep, reduceCtorEq, Option.some.injEq, Prod.mk.injEq] at h
    obtain ⟨rfl, rfl⟩ := h
    exact .enqueue ..
  | execute i =>
    cases c <;> simp only [step, executeStep, reduceCtorEq] at h
    split at h
    · next hc =>
      simp only [Option.some.injEq, Prod.mk.injEq] at h
      obtain ⟨rfl, rfl⟩ := h
      exact .empty i hc
    · next hc =>
      simp only [Option.some.injEq, Prod.mk.injEq] at h
      obtain ⟨rfl, rfl⟩ := h
      exact .execute i hc
  | dequeue i =>
    cases c <;> simp only [step, executeStep, reduceCtorEq] at h
    split at h
    · simp only [Option.map_eq_some_iff, Prod.mk.injEq] at h
      obtain ⟨⟨jobs, rest⟩, hr, rfl, rfl⟩ := h
      obtain ⟨hperm, horder⟩ := takeBulk_spec hr
      rw [← takeBulk_length hr]
      exact .dequeue _ _ _ hperm horder
    · simp at h
  | batch i jobCount jobs =>
    cases jobs with
    | nil =>
      cases c <;> simp only [step, executeStep, reduceCtorEq] at h
      split at h
      · next hc =>
        simp only [Option.some.injEq, Prod.mk.injEq] at h
        obtain ⟨rfl, rfl⟩ := h
        exact .subLast _ _ hc
      · simp only [Option.some.injEq, Prod.mk.injEq] at h
        obtain ⟨rfl, rfl⟩ := h
        exact .subMore ..
    | cons job jobs =>
      cases c <;> simp only [step, executeStep, reduceCtorEq] at h
      split at h <;> simp only [Option.some.injEq, Prod.mk.injEq, reduceCtorEq] at h
      obtain ⟨rfl, rfl⟩ := h
      exact .handle ..
  | handling i jobCount jobs =>
    cases c <;> simp only [step, executeStep, reduceCtorEq, Option.some.injEq,
      Prod.mk.injEq] at h <;> obtain ⟨rfl, rfl⟩ := h
    · exact .handled ..
    · exact .call _ _ _ _ trivial (by simp)
    · exact .call _ _ _ _ trivial (by simp)
    · exact .call _ _ _ _ trivial (by simp)
  | _ => exact .loop _ _ _ (launchStep_spec h)

namespace Frame

/-- Requests of service `i` that `mQueueCount` counts and `mDBQueue` does not hold. -/
def load (i : ℕ) : Frame T X → ℕ
  | .enqueue i' _ => if i' = i then 1 else 0
  | .batch i' jobCount _ | .handling i' jobCount _ => if i' = i then jobCount else 0
  | _ => 0

/-- The part of a batch of service `i` that still waits. -/
def left (i : ℕ) : Frame T X → ConcurrentQueue T (DBQueueData X)
  | .batch i' _ jobs | .handling i' _ jobs => if i' = i then jobs else []
  | _ => []

/-- The request of a `Push` that has counted it and not yet enqueued it. -/
def pending (i : ℕ) : Frame T X → List (DBQueueData X)
  | .enqueue i' job => if i' = i then [job] else []
  | _ => []

/-- An activation of `Execute` of service `i`. -/
def executing (i : ℕ) : Frame T X → Prop
  | .execute i' | .dequeue i' | .batch i' _ _ | .handling i' _ _ => i' = i
  | _ => False

/-- A position in the loop of `Launch`. -/
def looping (i : ℕ) : Frame T X → Prop
  | .launch i' | .isConnected i' | .tickTest i' | .reconnect i' | .backOff i' | .work i' _
  | .sleep i' _ => i' = i
  | _ => False

end Frame

/-- The stack of a thread that is not inside `Push`. -/
inductive Base (worker : ℕ → T) (t : T) : List (Frame T X) → Prop
  | idle : Base worker t []
  | loop (i f) : worker i = t → f.looping i → Base worker t [f]
  | execute (i f fs) : worker i = t → f.executing i → (f.left i).length ≤ f.load i →
      (fs = [] ∨ ∃ c, fs = [.sleep i c]) → Base worker t (f :: fs)

inductive Stack (worker : ℕ → T) (t : T) : List (Frame T X) → Prop
  | base (fs) : Base worker t fs → Stack worker t fs
  | push (f fs) : f.pushing → Base worker t fs → Stack worker t (f :: fs)

section Stack

variable {worker : ℕ → T} {t : T} {f : Frame T X} {fs : List (Frame T X)}

omit [DecidableEq T]

theorem Frame.pushing.not_executing (h : f.pushing) (i : ℕ) : ¬f.executing i := by
  cases f <;> simp_all [Frame.pushing, Frame.executing]

theorem Frame.pushing.not_looping (h : f.pushing) (i : ℕ) : ¬f.looping i := by
  cases f <;> simp_all [Frame.pushing, Frame.looping]

theorem Frame.executing.not_looping {i : ℕ} (h : f.executing i) (i' : ℕ) : ¬f.looping i' := by
  cases f <;> simp_all [Frame.executing, Frame.looping]

theorem Frame.executing.unique {i i' : ℕ} (h : f.executing i) (h' : f.executing i') : i = i' := by
  cases f <;> simp_all [Frame.executing]

theorem Stack.of_push (h : Stack worker t (f :: fs)) (hf : f.pushing) : Base worker t fs := by
  cases h with
  | base _ h =>
    cases h with
    | loop i _ _ hl => exact absurd hl (hf.not_looping i)
    | execute i _ _ _ he => exact absurd he (hf.not_executing i)
  | push _ _ _ h => exact h

theorem Stack.of_executing {i : ℕ} (h : Stack worker t (f :: fs)) (hf : f.executing i) :
    worker i = t ∧ (f.left i).length ≤ f.load i ∧ (fs = [] ∨ ∃ c, fs = [.sleep i c]) := by
  cases h with
  | base _ h =>
    cases h with
    | loop i' _ _ hl => exact absurd hl (hf.not_looping i')
    | execute i' _ _ hw he hleft hfs =>
      obtain rfl := he.unique hf
      exact ⟨hw, hleft, hfs⟩
  | push _ _ hp => exact absurd hf (hp.not_executing i)

theorem Stack.of_looping {i : ℕ} (h : Stack worker t (f :: fs)) (hf : f.looping i) :
    worker i = t ∧ fs = [] := by
  cases h with
  | base _ h =>
    cases h with
    | loop i' _ hw hl =>
      have hi : i' = i := by cases f <;> simp_all [Frame.looping]
      exact ⟨hi ▸ hw, rfl⟩
    | execute i' _ _ _ he => exact absurd hf (he.not_looping i)
  | push _ _ hp => exact absurd hf (hp.not_looping i)

theorem Base.pending (h : Base worker t fs) (i : ℕ) : fs.flatMap (Frame.pending i) = [] := by
  have loop (g : Frame T X) (i' : ℕ) (hg : g.looping i') : g.pending i = [] := by
    cases g <;> simp_all [Frame.looping, Frame.pending]
  have execute (g : Frame T X) (i' : ℕ) (hg : g.executing i') : g.pending i = [] := by
    cases g <;> simp_all [Frame.executing, Frame.pending]
  cases h with
  | idle => rfl
  | loop i' f _ hf => simp [loop f i' hf]
  | execute i' f fs _ hf _ hfs =>
    have hf := execute f i' hf
    rcases hfs with rfl | ⟨c, rfl⟩
    · simpa using hf
    · have hsleep := loop (.sleep i' c) i' rfl
      simp [hf, hsleep]

/-- Without a load no batch waits. -/
theorem Base.left_nil {i : ℕ} (h : Base worker t fs) (hload : ∀ f ∈ fs, f.load i = 0) :
    fs.flatMap (Frame.left i) = [] := by
  cases h with
  | idle => rfl
  | loop i' f _ hf =>
    have hleft : f.left i = [] := by cases f <;> first | rfl | exact hf.elim
    simpa using hleft
  | execute i' f fs _ hf hle hfs =>
    have hleft : f.left i = [] := by
      have hzero := hload f (by simp)
      by_cases hi : i' = i
      · subst hi
        exact List.eq_nil_of_length_eq_zero (by omega)
      · cases f <;> simp_all [Frame.executing, Frame.left]
    rcases hfs with rfl | ⟨c, rfl⟩ <;> simpa [Frame.left] using hleft

/-- Below the top frame no `Push` is in progress. -/
theorem Stack.pending_below (h : Stack worker t (f :: fs)) (i : ℕ) :
    fs.flatMap (Frame.pending i) = [] := by
  cases h with
  | base _ h =>
    cases h with
    | loop => rfl
    | execute i' _ _ _ _ _ hfs =>
      rcases hfs with rfl | ⟨c, rfl⟩ <;> rfl
  | push _ _ _ h => exact h.pending i

/-- Below an activation of `Execute` nothing of a batch waits. -/
theorem Stack.left_below {i : ℕ} (h : Stack worker t (f :: fs)) (hf : f.executing i) (i' : ℕ) :
    fs.flatMap (Frame.left i') = [] := by
  rcases (h.of_executing hf).2.2 with rfl | ⟨c, rfl⟩ <;> rfl

end Stack

/-- Every step leaves a stack of the same kind. -/
theorem Stack.step {worker : ℕ → T} {t : T} {f : Frame T X} {fs new : List (Frame T X)}
    {s s' : Mem T X} (h : Stack worker t (f :: fs)) (hs : Step s t f s' new) :
    Stack worker t (new ++ fs) := by
  cases hs with
  | refuse f hf _ => exact .base _ (h.of_push hf)
  | balance f i protocolId data handler hf _ => exact .push _ _ trivial (h.of_push hf)
  | push i protocolId data handler => exact .push _ _ trivial (h.of_push trivial)
  | enqueue i job => exact .base _ (h.of_push trivial)
  | empty i _ =>
    obtain ⟨hw, _, hfs⟩ := h.of_executing rfl
    rcases hfs with rfl | ⟨c, rfl⟩
    · exact .base _ .idle
    · exact .base _ (.loop i _ hw rfl)
  | execute i _ =>
    obtain ⟨hw, _, hfs⟩ := h.of_executing rfl
    exact .base _ (.execute i _ _ hw rfl (by simp [Frame.left]) hfs)
  | dequeue i jobs rest _ _ =>
    obtain ⟨hw, _, hfs⟩ := h.of_executing rfl
    apply Stack.base
    apply Base.execute i (.batch i jobs.length jobs) _ hw rfl _ hfs
    simp [Frame.left, Frame.load]
  | handle i jobCount job jobs =>
    obtain ⟨hw, hleft, hfs⟩ := h.of_executing rfl
    simp only [Frame.left, Frame.load, if_true, List.length_cons] at hleft
    apply Stack.base
    apply Base.execute i (.handling i jobCount jobs) _ hw rfl _ hfs
    simp only [Frame.left, Frame.load, if_true]
    omega
  | call i jobCount jobs f hf _ =>
    obtain ⟨hw, hleft, hfs⟩ := h.of_executing rfl
    exact .push _ _ hf (.execute i _ _ hw rfl hleft hfs)
  | handled i jobCount jobs =>
    obtain ⟨hw, hleft, hfs⟩ := h.of_executing rfl
    exact .base _ (.execute i _ _ hw rfl hleft hfs)
  | subLast i jobCount _ =>
    obtain ⟨hw, _, hfs⟩ := h.of_executing rfl
    rcases hfs with rfl | ⟨c, rfl⟩
    · exact .base _ .idle
    · exact .base _ (.loop i _ hw rfl)
  | subMore i jobCount =>
    obtain ⟨hw, _, hfs⟩ := h.of_executing rfl
    exact .base _ (.execute i _ _ hw rfl (by simp [Frame.left]) hfs)
  | loop f s' new hl =>
    cases hl with
    | work i c =>
      obtain ⟨hw, rfl⟩ := h.of_looping rfl
      exact .base _ (.execute i _ _ hw rfl (by simp [Frame.left]) (.inr ⟨c, rfl⟩))
    | _ i =>
      obtain ⟨hw, rfl⟩ := h.of_looping rfl
      exact .base _ (.loop i _ hw rfl)

namespace Mem

omit [DecidableEq T]

@[simp] theorem set_service (s : Mem T X) (i : ℕ) (d : DBService T X) :
    (s.set i d).service = Function.update s.service i d := rfl

@[simp] theorem set_pushed (s : Mem T X) (i : ℕ) (d : DBService T X) :
    (s.set i d).pushed = s.pushed := rfl

@[simp] theorem set_handled (s : Mem T X) (i : ℕ) (d : DBService T X) :
    (s.set i d).handled = s.handled := rfl

@[simp] theorem fetchAdd_service (s : Mem T X) (t : T) (i : ℕ) (job : DBQueueData X) :
    (s.fetchAdd t i job).service = Function.update s.service i
      { s.service i with mQueueCount := (s.service i).mQueueCount + 1 } := rfl

@[simp] theorem fetchAdd_pushed (s : Mem T X) (t : T) (i : ℕ) (job : DBQueueData X) :
    (s.fetchAdd t i job).pushed = Function.update s.pushed i (s.pushed i ++ [(t, job)]) := rfl

@[simp] theorem fetchAdd_handled (s : Mem T X) (t : T) (i : ℕ) (job : DBQueueData X) :
    (s.fetchAdd t i job).handled = s.handled := rfl

@[simp] theorem returnAtZero_service (s : Mem T X) (i : ℕ) :
    (s.returnAtZero i).service = s.service := rfl

@[simp] theorem returnAtZero_pushed (s : Mem T X) (i : ℕ) :
    (s.returnAtZero i).pushed = s.pushed := rfl

@[simp] theorem returnAtZero_handled (s : Mem T X) (i : ℕ) :
    (s.returnAtZero i).handled = s.handled := rfl

@[simp] theorem handle_service (s : Mem T X) (i : ℕ) (job : T × DBQueueData X) :
    (s.handle i job).service = s.service := rfl

@[simp] theorem handle_pushed (s : Mem T X) (i : ℕ) (job : T × DBQueueData X) :
    (s.handle i job).pushed = s.pushed := rfl

@[simp] theorem handle_handled (s : Mem T X) (i : ℕ) (job : T × DBQueueData X) :
    (s.handle i job).handled = Function.update s.handled i (s.handled i ++ [job]) := rfl

end Mem

omit [DecidableEq T] in
/-- The loop of `Launch` leaves the queues alone. -/
theorem LoopStep.frame {s s' : Mem T X} {t : T} {f : Frame T X} {new : List (Frame T X)}
    (h : LoopStep s t f s' new) (i : ℕ) :
    ((s'.service i).mQueueCount = (s.service i).mQueueCount ∧
      (s'.service i).mDBQueue = (s.service i).mDBQueue) ∧
    s'.pushed = s.pushed ∧ s'.handled = s.handled ∧ s'.drained = s.drained := by
  cases h with
  | reconnect i' ok =>
    refine ⟨?_, rfl, rfl, rfl⟩
    by_cases hi : i = i'
    · subst hi
      cases ok <;> simp [DBService.Connect]
    · simp [hi]
  | _ => exact ⟨⟨rfl, rfl⟩, rfl, rfl, rfl⟩

omit [DecidableEq T] in
theorem LoopStep.idle {s s' : Mem T X} {t : T} {f : Frame T X} {new : List (Frame T X)}
    (h : LoopStep s t f s' new) (i : ℕ) :
    (f.load i = 0 ∧ f.left i = [] ∧ f.pending i = []) ∧ stackWeight (Frame.load i) new = 0 ∧
      new.flatMap (Frame.left i) = [] ∧ new.flatMap (Frame.pending i) = [] := by
  cases h <;> simp [Frame.load, Frame.left, Frame.pending]

theorem step_load {s s' : Mem T X} {t : T} {f : Frame T X} {new : List (Frame T X)}
    (h : Step s t f s' new) (i : ℕ) :
    (s'.service i).mQueueCount + (s.service i).mDBQueue.length + f.load i =
      (s.service i).mQueueCount + (s'.service i).mDBQueue.length +
        stackWeight (Frame.load i) new := by
  have pushing (f : Frame T X) (hf : f.pushing) (hne : ∀ i job, f ≠ .enqueue i job) :
      f.load i = 0 := by
    cases f <;> simp_all [Frame.pushing, Frame.load]
  cases h with
  | refuse f hf hne => simp [pushing f hf hne]
  | balance f i' protocolId data handler hf hne =>
    have hpush := pushing (.push i' protocolId data handler) trivial (by simp)
    simp [pushing f hf hne, hpush]
  | push i' protocolId data handler =>
    by_cases hi : i' = i
    · subst hi; simp [Frame.load]; ring
    · simp [Frame.load, hi, Ne.symm hi]
  | enqueue i' job =>
    by_cases hi : i' = i
    · subst hi; simp [Mem.enqueueJob, ConcurrentQueue.enqueue, Frame.load, add_assoc]
    · simp [Mem.enqueueJob, Frame.load, hi, Ne.symm hi]
  | dequeue i' jobs rest hperm _ =>
    by_cases hi : i' = i
    · subst hi
      have hl := hperm.length_eq
      simp only [List.length_append] at hl
      simp only [Mem.dequeued, Mem.set_service, Frame.load, Function.update_self, if_true,
        stackWeight_cons, stackWeight_nil]
      omega
    · simp [Mem.dequeued, Frame.load, hi, Ne.symm hi]
  | call i' jobCount jobs f hf hne => simp [pushing f hf hne]
  | subLast i' jobCount _ =>
    by_cases hi : i' = i
    · subst hi; simp [Mem.fetchSub, Frame.load]; ring
    · simp [Mem.fetchSub, Frame.load, hi, Ne.symm hi]
  | subMore i' jobCount =>
    by_cases hi : i' = i
    · subst hi; simp [Mem.fetchSub, Frame.load]; ring
    · simp [Mem.fetchSub, Frame.load, hi, Ne.symm hi]
  | loop f s' new hl =>
    obtain ⟨⟨hcount, hqueue⟩, _⟩ := hl.frame i
    obtain ⟨⟨hload, _⟩, hnew, _⟩ := hl.idle i
    rw [hcount, hqueue, hload, hnew]
  | _ => simp [Frame.load]

/-- Each producer's requests are, in order, those handled, those of the batch that waits,
those queued and the one that its running `Push` has counted. -/
theorem step_order {s s' : Mem T X} {t : T} {f : Frame T X} {new : List (Frame T X)}
    (h : Step s t f s' new) (worker : ℕ → T) (i : ℕ) (p : T)
    (below W : ConcurrentQueue T (DBQueueData X)) (P : List (DBQueueData X))
    (alone : f.executing i → worker i = t ∧ below = [])
    (before : ofProducer p (s.pushed i) =
      ofProducer p (s.handled i ++ (if worker i = t then f.left i ++ below else W) ++
        (s.service i).mDBQueue) ++ (if p = t then f.pending i else P)) :
    ofProducer p (s'.pushed i) =
      ofProducer p (s'.handled i ++
        (if worker i = t then new.flatMap (Frame.left i) ++ below else W) ++
        (s'.service i).mDBQueue) ++ (if p = t then new.flatMap (Frame.pending i) else P) := by
  have pushing (f : Frame T X) (hf : f.pushing) (hne : ∀ i job, f ≠ .enqueue i job) :
      f.left i = [] ∧ f.pending i = [] := by
    cases f <;> simp_all [Frame.pushing, Frame.left, Frame.pending]
  cases h with
  | refuse f hf hne =>
    obtain ⟨hleft, hpending⟩ := pushing f hf hne
    simpa [hleft, hpending] using before
  | balance f i' protocolId data handler hf hne =>
    obtain ⟨hleft, hpending⟩ := pushing f hf hne
    obtain ⟨hleft', hpending'⟩ := pushing (.push i' protocolId data handler) trivial (by simp)
    simpa [hleft, hpending, hleft', hpending'] using before
  | push i' protocolId data handler =>
    by_cases hi : i' = i
    · subst hi
      by_cases hp : p = t
      · subst hp
        simp only [Frame.left, Frame.pending, if_true, List.append_nil] at before
        simp [Frame.left, Frame.pending, ofProducer_cons, before]
      · simpa [hp, Ne.symm hp, ofProducer_cons, Frame.left] using before
    · have hne : i ≠ i' := Ne.symm hi
      simpa [Frame.left, Frame.pending, hi, hne] using before
  | enqueue i' job =>
    by_cases hi : i' = i
    · subst hi
      by_cases hp : p = t
      · subst hp
        simpa [Mem.enqueueJob, ConcurrentQueue.enqueue, Frame.left, Frame.pending,
          ofProducer_cons] using before
      · simpa [Mem.enqueueJob, ConcurrentQueue.enqueue, hp, Ne.symm hp, ofProducer_cons, Frame.left]
          using before
    · have hne : i ≠ i' := Ne.symm hi
      simpa [Mem.enqueueJob, Frame.left, Frame.pending, hi, hne] using before
  | dequeue i' jobs rest _ horder =>
    by_cases hi : i' = i
    · subst hi
      obtain ⟨hw, rfl⟩ := alone rfl
      rw [if_pos hw] at before ⊢
      simp only [Frame.left, ofProducer_append, horder p] at before
      simpa [Mem.dequeued, Frame.left, Frame.pending] using before
    · have hne : i ≠ i' := Ne.symm hi
      simpa [Mem.dequeued, Frame.left, Frame.pending, hi, hne] using before
  | handle i' jobCount job jobs =>
    by_cases hi : i' = i
    · subst hi
      obtain ⟨hw, rfl⟩ := alone rfl
      rw [if_pos hw] at before ⊢
      simpa [Frame.left, Frame.pending] using before
    · have hne : i ≠ i' := Ne.symm hi
      simpa [Frame.left, Frame.pending, hi, hne] using before
  | call i' jobCount jobs f hf hne =>
    obtain ⟨hleft, hpending⟩ := pushing f hf hne
    have hpending' : (Frame.handling i' jobCount jobs).pending i = [] := rfl
    simpa [hleft, hpending, hpending'] using before
  | subLast i' jobCount _ =>
    by_cases hi : i = i'
    · subst hi
      simpa [Mem.fetchSub, Frame.left, Frame.pending] using before
    · simpa [Mem.fetchSub, Frame.left, Frame.pending, hi] using before
  | subMore i' jobCount =>
    by_cases hi : i = i'
    · subst hi
      simpa [Mem.fetchSub, Frame.left, Frame.pending] using before
    · simpa [Mem.fetchSub, Frame.left, Frame.pending, hi] using before
  | loop f s' new hl =>
    obtain ⟨⟨_, hqueue⟩, hpushed, hhandled, _⟩ := hl.frame i
    obtain ⟨⟨_, hleft, hpending⟩, _, hnewleft, hnewpending⟩ := hl.idle i
    rw [hpushed, hhandled, hqueue, hnewleft, hnewpending]
    rwa [hleft, hpending] at before
  | _ => simpa [Frame.left, Frame.pending] using before

/-- Once an `Execute` has returned at zero, the count stays there until a `Push` raises it. -/
theorem step_drained {s s' : Mem T X} {t : T} {f : Frame T X} {new : List (Frame T X)}
    (h : Step s t f s' new) (i : ℕ) (hload : f.load i ≤ (s.service i).mQueueCount)
    (before : s.drained i = true → (s.service i).mQueueCount = 0) (hd : s'.drained i = true) :
    (s'.service i).mQueueCount = 0 := by
  cases h with
  | push i' protocolId data handler =>
    by_cases hi : i = i'
    · subst hi
      simp [Mem.fetchAdd] at hd
    · simp only [Mem.fetchAdd_service, Function.update_of_ne hi]
      apply before
      simpa [Mem.fetchAdd, hi] using hd
  | enqueue i' job =>
    have hcount := before hd
    by_cases hi : i = i'
    · subst hi
      simpa [Mem.enqueueJob] using hcount
    · simpa [Mem.enqueueJob, hi] using hcount
  | empty i' hzero =>
    by_cases hi : i = i'
    · subst hi
      exact hzero
    · apply before
      simpa [Mem.returnAtZero, hi] using hd
  | dequeue i' jobs rest _ _ =>
    have hcount := before hd
    by_cases hi : i = i'
    · subst hi
      simpa [Mem.dequeued] using hcount
    · simpa [Mem.dequeued, hi] using hcount
  | subLast i' jobCount hlast =>
    by_cases hi : i = i'
    · subst hi
      simp [Mem.fetchSub, hlast]
    · have hcount := before (by simpa [Mem.returnAtZero, Mem.fetchSub, Mem.set, hi] using hd)
      simpa [Mem.fetchSub, hi] using hcount
  | subMore i' jobCount =>
    have hcount := before hd
    by_cases hi : i = i'
    · subst hi
      simp only [Frame.load, if_true, hcount] at hload
      simp only [Mem.fetchSub, Mem.set_service, Function.update_self]
      omega
    · simpa [Mem.fetchSub, hi] using hcount
  | loop f s' new hl =>
    obtain ⟨⟨hcount, _⟩, _, _, hdrained⟩ := hl.frame i
    rw [hcount]
    apply before
    rw [← hdrained]
    exact hd
  | _ => exact before hd

/-- What holds between any two atomic steps. -/
structure Inv [Fintype T] (worker : ℕ → T) (s : Conf T (Mem T X) (Frame T X)) : Prop where
  stack : ∀ t, Stack worker t (s.frames t)
  count : ∀ i, (s.mem.service i).mQueueCount =
    (s.mem.service i).mDBQueue.length + weight (Frame.load i) s.frames
  order : ∀ i p, ofProducer p (s.mem.pushed i) =
    ofProducer p (s.mem.handled i ++ (s.frames (worker i)).flatMap (Frame.left i) ++
      (s.mem.service i).mDBQueue) ++ (s.frames p).flatMap (Frame.pending i)
  drained : ∀ i, s.mem.drained i = true → (s.mem.service i).mQueueCount = 0

/-- A call adds a frame that holds nothing. -/
theorem enter_spec {worker : ℕ → T} {mem : Mem T X} {fr : T → List (Frame T X)}
    {t : T} {c : Choice T X} {r : Mem T X × Frame T X} (h : enter worker mem fr t c = some r) :
    fr t = [] ∧ r.1 = mem ∧ Stack worker t [r.2] ∧
      ∀ i, r.2.load i = 0 ∧ r.2.left i = [] ∧ r.2.pending i = [] := by
  cases c <;> simp only [enter, reduceCtorEq] at h <;> split at h <;>
    simp only [Option.some.injEq, reduceCtorEq] at h <;> subst h
  case callBalance hc =>
    exact ⟨by simpa using hc, rfl, .push _ _ trivial .idle, fun i => ⟨rfl, rfl, rfl⟩⟩
  case callBalanceData hc =>
    exact ⟨by simpa using hc, rfl, .push _ _ trivial .idle, fun i => ⟨rfl, rfl, rfl⟩⟩
  case callPush hc =>
    exact ⟨by simpa using hc, rfl, .push _ _ trivial .idle, fun i => ⟨rfl, rfl, rfl⟩⟩
  case callExecute i hc =>
    refine ⟨by simpa using hc.1, rfl, ?_, fun i => ⟨rfl, rfl, rfl⟩⟩
    exact .base _ (.execute i _ _ hc.2 rfl (by simp [Frame.left]) (.inl rfl))
  case callLaunch i hc =>
    refine ⟨by simpa using hc.1, rfl, ?_, fun i => ⟨rfl, rfl, rfl⟩⟩
    exact .base _ (.loop i _ hc.2.1 rfl)

omit [DecidableEq T] in
theorem env_spec {mem mem' : Mem T X} {c : Choice T X} (h : env mem c = some mem') :
    ∃ i, mem' = mem.set i { mem.service i with
      mSession := (mem.service i).mSession.map fun _ => false } := by
  cases c <;> simp only [env, reduceCtorEq, Option.some.injEq] at h
  exact ⟨_, h.symm⟩

section Run

variable [Fintype T] {worker : ℕ → T}

theorem Inv.step {s : Conf T (Mem T X) (Frame T X)} (h : Inv worker s) {t : T} {f : Frame T X}
    {fs new : List (Frame T X)} {mem : Mem T X} (hs : s.frames t = f :: fs)
    (hf : Step s.mem t f mem new) :
    Inv worker ⟨mem, Function.update s.frames t (new ++ fs)⟩ := by
  have hstack : Stack worker t (f :: fs) := hs ▸ h.stack t
  constructor
  · intro u
    by_cases hu : u = t
    · subst hu
      show Stack worker u (Function.update s.frames u (new ++ fs) u)
      rw [Function.update_self]
      exact hstack.step hf
    · show Stack worker u (Function.update s.frames t (new ++ fs) u)
      rw [Function.update_of_ne hu]
      exact h.stack u
  · intro i
    have hl := step_load hf i
    have hw := weight_step (Frame.load i) hs new
    have hc := h.count i
    dsimp only
    omega
  · intro i p
    have alone (he : f.executing i) :
        worker i = t ∧ fs.flatMap (Frame.left i) = [] :=
      ⟨(hstack.of_executing he).1, hstack.left_below he i⟩
    have below := hstack.pending_below i
    have before := h.order i p
    have e := step_order hf worker i p (fs.flatMap (Frame.left i))
      ((s.frames (worker i)).flatMap (Frame.left i)) ((s.frames p).flatMap (Frame.pending i)) alone
    dsimp only
    by_cases hw : worker i = t
    · by_cases hp : p = t
      · subst hp
        simp only [hw, hs, below, List.flatMap_cons, List.append_nil] at before
        simp only [hw, if_true] at e
        simp only [hw, Function.update_self, List.flatMap_append, below, List.append_nil]
        exact e before
      · simp only [hw, hs, List.flatMap_cons] at before
        simp only [hw, hp, if_true, if_false] at e
        simp only [hw, Function.update_self, Function.update_of_ne hp, List.flatMap_append]
        exact e before
    · by_cases hp : p = t
      · subst hp
        simp only [hs, below, List.flatMap_cons, List.append_nil] at before
        simp only [hw, if_true, if_false] at e
        simp only [Function.update_of_ne hw, Function.update_self, List.flatMap_append, below,
          List.append_nil]
        exact e before
      · simp only [hw, hp, if_false] at e
        simp only [Function.update_of_ne hw, Function.update_of_ne hp]
        exact e before
  · intro i
    have share := top_le_weight (Frame.load i) hs
    have hc := h.count i
    exact step_drained hf i (by omega) (h.drained i)

theorem Inv.enter {s : Conf T (Mem T X) (Frame T X)} (h : Inv worker s) {t : T} {f : Frame T X}
    (hidle : s.frames t = []) (hstack : Stack worker t [f])
    (hf : ∀ i, f.load i = 0 ∧ f.left i = [] ∧ f.pending i = []) :
    Inv worker ⟨s.mem, Function.update s.frames t (f :: s.frames t)⟩ := by
  constructor
  · intro u
    by_cases hu : u = t
    · subst hu
      simpa [hidle] using hstack
    · simpa [hu] using h.stack u
  · intro i
    have hw := weight_push s.frames t (hf i).1
    have hc := h.count i
    dsimp only
    omega
  · intro i p
    have same (u : T) : (Function.update s.frames t (f :: s.frames t) u).flatMap (Frame.left i) =
        (s.frames u).flatMap (Frame.left i) := by
      by_cases hu : u = t
      · subst hu
        simp [(hf i).2.1]
      · rw [Function.update_of_ne hu]
    have same' (u : T) :
        (Function.update s.frames t (f :: s.frames t) u).flatMap (Frame.pending i) =
        (s.frames u).flatMap (Frame.pending i) := by
      by_cases hu : u = t
      · subst hu
        simp [(hf i).2.2]
      · rw [Function.update_of_ne hu]
    dsimp only
    rw [same, same']
    exact h.order i p
  · exact h.drained

theorem Inv.next {s s' : Conf T (Mem T X) (Frame T X)} {a : Action T (Choice T X)}
    (h : Inv worker s) (hs' : (machine worker).next s a = some s') : Inv worker s' := by
  rcases Machine.next_cases hs' with ⟨t, c, mem, f, rfl, he, rfl⟩ |
    ⟨t, c, f, fs, mem, new, rfl, hs, he, rfl⟩ | ⟨c, mem, rfl, he, rfl⟩
  · obtain ⟨hidle, hmem, hstack, hf⟩ := enter_spec he
    obtain rfl : mem = s.mem := hmem
    exact h.enter hidle hstack hf
  · exact h.step hs (step_spec he)
  · obtain ⟨i, rfl⟩ := env_spec he
    have same (j : ℕ) : ((s.mem.set i { s.mem.service i with
        mSession := (s.mem.service i).mSession.map fun _ => false }).service j).mQueueCount =
          (s.mem.service j).mQueueCount ∧
        ((s.mem.set i { s.mem.service i with
        mSession := (s.mem.service i).mSession.map fun _ => false }).service j).mDBQueue =
          (s.mem.service j).mDBQueue := by
      by_cases hj : j = i
      · subst hj
        simp
      · simp [hj]
    refine ⟨h.stack, ?_, ?_, ?_⟩
    · intro j
      rw [(same j).1, (same j).2]
      exact h.count j
    · intro j p
      rw [(same j).2]
      exact h.order j p
    · intro j hd
      rw [(same j).1]
      exact h.drained j hd

theorem Inv.start (connect : ℕ → Bool) (connectionString : String) (serviceCount : Int) :
    Inv worker (start connect connectionString serviceCount : Conf T (Mem T X) (Frame T X)) := by
  have h (i : ℕ) := @DBLoadBalancer.Init_service T X connect connectionString serviceCount i
  constructor
  · exact fun t => .base _ .idle
  · intro i
    simpa [Database.start, Mem.init, Mem.service, (h i).2] using (h i).1
  · intro i p
    simp [Database.start, Mem.init, Mem.service, (h i).2]
  · intro i hd
    cases hd

theorem Reach.inv {ok : Conf T (Mem T X) (Frame T X) → Action T (Choice T X) → Prop}
    {connect : ℕ → Bool} {connectionString : String} {serviceCount : Int}
    {s : Conf T (Mem T X) (Frame T X)}
    (h : (machine worker).Reach ok (start connect connectionString serviceCount) s) :
    Inv worker s :=
  Machine.Reach.invariant (Inv worker) h (.start connect connectionString serviceCount)
    fun _ _ _ _ hi _ hs => hi.next hs

/-- A count of zero means that nothing is queued and every request was handled. -/
theorem Inv.all_handled {s : Conf T (Mem T X) (Frame T X)} (h : Inv worker s) (i : ℕ)
    (hzero : (s.mem.service i).mQueueCount = 0) :
    (s.mem.service i).mDBQueue = [] ∧
      ∀ p, ofProducer p (s.mem.handled i) = ofProducer p (s.mem.pushed i) := by
  have hc := h.count i
  have hqueue : (s.mem.service i).mDBQueue = [] := List.eq_nil_of_length_eq_zero (by omega)
  have hload := (weight_eq_zero (Frame.load i) s.frames).mp (by omega)
  have hpending (p : T) : (s.frames p).flatMap (Frame.pending i) = [] := by
    apply List.flatMap_eq_nil_iff.mpr
    intro f hf
    have hzero := hload p f hf
    cases f <;> simp_all [Frame.pending, Frame.load]
  have hleft : (s.frames (worker i)).flatMap (Frame.left i) = [] := by
    cases hs : s.frames (worker i) with
    | nil => rfl
    | cons f fs =>
      have hstack := hs ▸ h.stack (worker i)
      cases hstack with
      | base _ hbase => exact hbase.left_nil fun g hg => hload _ g (hs ▸ hg)
      | push _ _ hpush hbase =>
        have hf : f.left i = [] := by cases f <;> first | rfl | exact hpush.elim
        have hfs := hbase.left_nil fun g hg => hload _ g (hs ▸ List.mem_cons_of_mem f hg)
        rw [List.flatMap_cons, hf, hfs]
        rfl
  refine ⟨hqueue, fun p => ?_⟩
  rw [h.order i p, hqueue, hleft, hpending]
  simp

/-- Each request is handled at most once, by the service it was pushed to and in the order of
the thread that pushed it; the count covers the queue, and an `Execute` that has returned at
zero leaves no request behind. -/
theorem dbService_exactly_once {connect : ℕ → Bool} {connectionString : String}
    {serviceCount : Int} {s : Conf T (Mem T X) (Frame T X)}
    (h : (machine worker).Reach (fun _ _ => True) (start connect connectionString serviceCount) s)
    (i : ℕ) :
    List.Subperm (s.mem.handled i) (s.mem.pushed i) ∧
    (∀ p, ofProducer p (s.mem.handled i) <+: ofProducer p (s.mem.pushed i)) ∧
    0 ≤ (s.mem.service i).mQueueCount ∧
    (s.mem.service i).mDBQueue.length ≤ (s.mem.service i).mQueueCount ∧
    (s.mem.drained i = true →
      (s.mem.service i).mDBQueue = [] ∧ (s.mem.handled i).Perm (s.mem.pushed i)) := by
  have hi := Reach.inv h
  have hc := hi.count i
  have hinitial (p : T) : ofProducer p (s.mem.handled i) <+: ofProducer p (s.mem.pushed i) := by
    rw [hi.order i p, List.append_assoc, ofProducer_append, List.append_assoc]
    exact List.prefix_append _ _
  have hsubperm : List.Subperm (s.mem.handled i) (s.mem.pushed i) :=
    subperm_of_producers fun p => (hinitial p).sublist
  refine ⟨hsubperm, hinitial, by omega, by omega, ?_⟩
  intro hd
  obtain ⟨hqueue, hall⟩ := hi.all_handled i (hi.drained i hd)
  have hback : List.Subperm (s.mem.pushed i) (s.mem.handled i) :=
    subperm_of_producers fun p => (hall p) ▸ List.Sublist.refl _
  exact ⟨hqueue, hsubperm.antisymm hback⟩

end Run

/-- The thread of the one service handles a request while a second is being pushed. -/
def handleOne : List (Action Bool (Choice Bool Unit)) :=
  [.enter false (.callBalance 7 1 (some ⟨7, 1, ()⟩) ⟨[1, 2]⟩), .step false .go, .step false .go,
    .step false .go, .enter true (.callExecute 0), .step true .go, .step true (.take [false]),
    .enter false (.callPush 0 2 (some ⟨3, 2, ()⟩) ⟨[1, 2]⟩), .step true .go, .step true .go,
    .step true .go]

theorem dbService_exactly_once_handleOne :
    ∃ s : Conf Bool (Mem Bool Unit) (Frame Bool Unit),
      (machine fun _ => true).Reach (fun _ _ => True) (start (fun _ => true) "DSN=Game" 1) s ∧
      s.mem.drained 0 = true ∧ (s.mem.service 0).mDBQueue = [] ∧
      (s.mem.handled 0).Perm (s.mem.pushed 0) ∧ s.mem.pushed 0 ≠ [] := by
  have hr := Machine.reach_final (machine fun _ => true)
    (start (fun _ => true) "DSN=Game" 1 : Conf Bool (Mem Bool Unit) (Frame Bool Unit)) handleOne
    (by decide)
  have hd : (Machine.final (machine fun _ => true) (start (fun _ => true) "DSN=Game" 1)
      handleOne (by decide)).mem.drained 0 = true := by decide
  obtain ⟨_, _, _, _, hall⟩ := dbService_exactly_once hr 0
  exact ⟨_, hr, hd, (hall hd).1, (hall hd).2, by decide⟩

end ServerCore.Database
