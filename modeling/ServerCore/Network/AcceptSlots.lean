import ServerCore.Network.ListenerRefinement
import ServerCore.Network.MaxSessions

namespace ServerCore.Network

open Framework

variable {T S : Type} [DecidableEq T] [DecidableEq S]

/-- Positions inside the functions of `Listener`, with the access to a null session. -/
inductive SlotFrame (T S : Type) where
  | listener (f : ListenerFrame T S)
  /-- `RegisterAccept` is about to access `mCustomBuffer` of the null session of its context. -/
  | nullSession (a : ℕ)
  deriving DecidableEq

inductive SlotChoice (T S : Type) where
  | listener (c : ListenerChoice T S)
  /-- `CreateSession` returns null: the handle of the session it made cannot be registered. -/
  | createFailed (x : S)
  deriving DecidableEq

abbrev SlotConf (T S : Type) : Type := Conf T (ListenerSystem T S) (SlotFrame T S)

def SlotFrame.listener? : SlotFrame T S → Option (ListenerFrame T S)
  | .listener f => some f
  | .nullSession _ => none

/-- The session that `CreateSession` drops is gone when it returns. -/
def ListenerSystem.createFailed (σ : ListenerSystem T S) (a : ℕ) (x : S) : ListenerSystem T S :=
  { σ.setAccept a ⟨none, false⟩ with
    system := (σ.letGo a).set x { σ.system.session x with bound := true, destroyed := true } }

/-- One step of the listener. None leaves the access to a null session. -/
def slotStep (σ : ListenerSystem T S) (t : T) :
    SlotFrame T S → SlotChoice T S → Option (ListenerSystem T S × List (SlotFrame T S))
  | .listener f, .listener c => (listenerStep σ t f c).map fun r => (r.1, r.2.map .listener)
  | .listener (.registerAccept a), .createFailed x =>
      if (σ.system.session x).bound = false ∧ (σ.system.session x).destroyed = false then
        some (σ.createFailed a x, [.nullSession a])
      else none
  | _, _ => none

def slotEnter [Fintype T] (σ : ListenerSystem T S) (frames : T → List (SlotFrame T S)) (t : T) :
    SlotChoice T S → Option (ListenerSystem T S × SlotFrame T S)
  | .listener c =>
      if (frames t).all fun f => f.listener?.isSome then
        (listenerEnter σ (fun u => (frames u).filterMap SlotFrame.listener?) t c).map fun r =>
          (r.1, .listener r.2)
      else none
  | .createFailed _ => none

/-- A listening service whose `CreateSession` may fail. -/
def slotMachine [Fintype T] : Machine T (ListenerSystem T S) (SlotFrame T S) (SlotChoice T S) :=
  ⟨slotEnter, slotStep, fun _ _ => none⟩

/-- The service as it is when no `CreateSession` has failed. -/
def withListener (s : ListenerConf T S) : SlotConf T S :=
  ⟨s.mem, fun u => (s.frames u).map .listener⟩

def slotStart (t : T) (recvPool sendPool : RegisteredBufferPool T) (maxSessionCount : ℕ) :
    SlotConf T S := withListener (listenerStart t recvPool sendPool maxSessionCount)

/-- The action is not a `CreateSession` that fails. -/
def creates (_ : SlotConf T S) : Action T (SlotChoice T S) → Bool
  | .step _ (.createFailed _) => false
  | _ => true

/-- The frame works on context `a`. -/
def SlotFrame.holds (a : ℕ) : SlotFrame T S → ℕ
  | .listener f => f.holds a
  | .nullSession b => if b = a then 1 else 0

/-- Each context of `StartAccept` is worked on by exactly one thread, or armed by exactly one
`AcceptEx` on a session that only it refers to and that is not connected. No thread is about to
access a null session. -/
structure SlotsKept [Fintype T] (s : SlotConf T S) : Prop where
  one : ∀ a < s.mem.mMaxSessionCount,
    weight (SlotFrame.holds a) s.frames + (s.mem.accept a).posted = 1
  armed : ∀ a, (s.mem.accept a).pending = true → ∃ x, (s.mem.accept a).mSession = some x ∧
    (s.mem.system.session x).accepting = true ∧ (s.mem.system.session x).mIsConnected = false ∧
    ∀ b, (s.mem.accept b).mSession = some x → b = a
  created : ∀ u a, .nullSession a ∉ s.frames u
  found : ∀ u a, .listener (.processAccept a) ∈ s.frames u → (s.mem.accept a).mSession ≠ none

/-- A step of the listener neither drops nor doubles the work on a context of `StartAccept`. -/
theorem ListenerStep.holds_kept {t : T} {σ σ' : ListenerSystem T S} {f : ListenerFrame T S}
    {c : ListenerChoice T S} {new : List (ListenerFrame T S)} (h : ListenerStep t σ f c σ' new)
    {a : ℕ} (ha : a < σ.mMaxSessionCount) (hone : f.holds a + (σ.accept a).posted ≤ 1) :
    stackWeight (ListenerFrame.holds a) new + (σ'.accept a).posted =
      f.holds a + (σ.accept a).posted := by
  cases h with
  | session x f c system new h => simp [ListenerFrame.holds]
  | startAccept i hi =>
    simp only [stackWeight_cons, stackWeight_nil, ListenerFrame.holds]
    split_ifs <;> omega
  | started i hi =>
    simp only [stackWeight_nil, ListenerFrame.holds]
    split_ifs <;> omega
  | create b x _ _ | post b =>
    by_cases hb : b = a
    · subst hb
      have hidle : (σ.accept b).posted = 0 := by
        simp only [ListenerFrame.holds, if_true] at hone
        omega
      simp [ListenerFrame.holds, ListenerSystem.setAccept, hidle]
      rfl
    · simp [ListenerFrame.holds, ListenerSystem.setAccept, hb, Ne.symm hb]
  | _ => simp [ListenerFrame.holds]

/-- The frame relies on the session of context `a`. -/
def ListenerFrame.carries (a : ℕ) : ListenerFrame T S → Bool
  | .acceptEx b | .dispatch b | .processAccept b => b == a
  | _ => false

/-- A context that is armed or relied on has a session. -/
structure Found (l : ListenerConf T S) : Prop where
  pending : ∀ a, (l.mem.accept a).pending = true → (l.mem.accept a).mSession ≠ none
  working : ∀ u a f, f ∈ l.frames u → f.carries a = true → (l.mem.accept a).mSession ≠ none

theorem ListenerStep.mSession_kept {t : T} {σ σ' : ListenerSystem T S} {f : ListenerFrame T S}
    {c : ListenerChoice T S} {new : List (ListenerFrame T S)} (h : ListenerStep t σ f c σ' new)
    {a : ℕ} (ha : (σ.accept a).mSession ≠ none) : (σ'.accept a).mSession ≠ none := by
  rcases h.mSession a with hsame | hcreate
  · rwa [hsame]
  · subst hcreate
    cases h with
    | create b x _ _ => simp [ListenerSystem.setAccept]

theorem ListenerStep.pending_kept {t : T} {σ σ' : ListenerSystem T S} {f : ListenerFrame T S}
    {c : ListenerChoice T S} {new : List (ListenerFrame T S)} (h : ListenerStep t σ f c σ' new)
    {a : ℕ} (ha : (σ'.accept a).pending = true) :
    (σ.accept a).pending = true ∨ f = .acceptEx a := by
  cases h with
  | create b x _ _ =>
    by_cases hb : b = a
    · subst hb
      simp [ListenerSystem.setAccept] at ha
    · exact .inl (by simpa [ListenerSystem.setAccept, Ne.symm hb] using ha)
  | post b =>
    by_cases hb : b = a
    · exact .inr (by rw [hb])
    · exact .inl (by simpa [ListenerSystem.setAccept, Ne.symm hb] using ha)
  | _ => exact .inl ha

omit [DecidableEq T] in
theorem ListenerEnter.carries {σ σ' : ListenerSystem T S} {frames : T → List (SessionFrame T S)}
    {c : ListenerChoice T S} {f : ListenerFrame T S} (h : ListenerEnter σ frames c σ' f) {a : ℕ} :
    (f.carries a = true → (σ.accept a).pending = true) ∧
      ((σ'.accept a).pending = true → (σ.accept a).pending = true) := by
  cases h with
  | accepted b ok hp =>
    by_cases hb : b = a
    · subst hb
      exact ⟨fun _ => hp, fun _ => hp⟩
    · exact ⟨by simp [ListenerFrame.carries, hb], by simp [ListenerSystem.setAccept, Ne.symm hb]⟩
  | _ => exact ⟨by simp [ListenerFrame.carries], id⟩

/-- Only `CreateSession` gives a frame a context to rely on, and it gives the context a session. -/
theorem ListenerStep.carries {t : T} {σ σ' : ListenerSystem T S} {f : ListenerFrame T S}
    {c : ListenerChoice T S} {new : List (ListenerFrame T S)} (h : ListenerStep t σ f c σ' new)
    {a : ℕ} {g : ListenerFrame T S} (hg : g ∈ new) (ha : g.carries a = true) :
    f.carries a = true ∨ (σ'.accept a).mSession ≠ none := by
  cases h with
  | session x f c system new h =>
    obtain ⟨g, _, rfl⟩ := List.mem_map.mp hg
    simp [ListenerFrame.carries] at ha
  | create b x _ _ =>
    obtain rfl := List.mem_singleton.mp hg
    obtain rfl : b = a := by simpa [ListenerFrame.carries] using ha
    exact .inr (by simp [ListenerSystem.setAccept])
  | dispatch b =>
    obtain rfl := List.mem_singleton.mp hg
    exact .inl ha
  | startAccept i _ =>
    simp only [List.mem_cons, List.not_mem_nil, or_false] at hg
    rcases hg with rfl | rfl <;> simp [ListenerFrame.carries] at ha
  | named b x =>
    simp only [List.mem_cons, List.not_mem_nil, or_false] at hg
    rcases hg with rfl | rfl <;> simp [ListenerFrame.carries] at ha
  | _ => simp_all [ListenerFrame.carries]

section

omit [DecidableEq T] [DecidableEq S] in
@[simp] theorem filterMap_listener (fs : List (ListenerFrame T S)) :
    (fs.map SlotFrame.listener).filterMap SlotFrame.listener? = fs := by
  induction fs with
  | nil => rfl
  | cons f fs ih => exact congrArg (f :: ·) ih

omit [DecidableEq S] in
theorem withListener_update (mem : ListenerSystem T S) (frames : T → List (ListenerFrame T S))
    (t : T) (fs : List (ListenerFrame T S)) :
    withListener ⟨mem, Function.update frames t fs⟩ =
      ⟨mem, Function.update (withListener ⟨mem, frames⟩).frames t (fs.map .listener)⟩ := by
  have hframes := Function.comp_update (List.map SlotFrame.listener) frames t fs
  simp only [withListener, Conf.mk.injEq, true_and]
  exact hframes

variable [Fintype T]

/-- An action other than a failing `CreateSession` is an action of the listener. -/
theorem withListener_next {s : ListenerConf T S} {s' : SlotConf T S} {act : Action T (SlotChoice T S)}
    (hact : creates (withListener s) act = true)
    (h : slotMachine.next (withListener s) act = some s') :
    ∃ act' l, listenerMachine.next s act' = some l ∧ s' = withListener l := by
  rcases Machine.next_cases h with ⟨t, c, mem, f, rfl, he, rfl⟩ |
    ⟨t, c, f, fs, mem, new, rfl, hf, he, rfl⟩ | ⟨c, mem, rfl, he, rfl⟩
  · cases c with
    | listener c =>
      simp only [slotMachine, slotEnter, withListener, filterMap_listener] at he
      split at he
      · obtain ⟨⟨mem, f⟩, henter, hr⟩ := Option.map_eq_some_iff.mp he
        obtain ⟨rfl, rfl⟩ := Prod.mk.inj hr
        have hnext : listenerMachine.next s (.enter t c) =
            some ⟨mem, Function.update s.frames t (f :: s.frames t)⟩ := by
          have henter' : listenerMachine.enter s.mem s.frames t c = some (mem, f) := henter
          simp only [Machine.next, henter', Option.map_some]
        refine ⟨.enter t c, _, hnext, ?_⟩
        rw [withListener_update]
        rfl
      · simp at he
    | createFailed x => simp [slotMachine, slotEnter] at he
  · have hmap : (s.frames t).map SlotFrame.listener = f :: fs := hf
    obtain ⟨g, gs, hs, rfl, rfl⟩ := List.map_eq_cons_iff.mp hmap
    cases c with
    | listener c =>
      simp only [slotMachine, slotStep] at he
      obtain ⟨⟨mem, gs'⟩, hstep, hr⟩ := Option.map_eq_some_iff.mp he
      obtain ⟨rfl, rfl⟩ := Prod.mk.inj hr
      have hnext : listenerMachine.next s (.step t c) =
          some ⟨mem, Function.update s.frames t (gs' ++ gs)⟩ := by
        have hstep' : listenerMachine.step s.mem t g c = some (mem, gs') := hstep
        simp only [Machine.next, hs, hstep', Option.map_some]
      refine ⟨.step t c, _, hnext, ?_⟩
      rw [withListener_update, List.map_append]
      rfl
    | createFailed x => simp [creates] at hact
  · simp [slotMachine] at he

variable {t : T} {recvPool sendPool : RegisteredBufferPool T} {maxSessionCount : ℕ}

/-- A run in which no `CreateSession` fails is a run of the listener. -/
theorem listener_of_creates {s : SlotConf T S}
    (h : slotMachine.Reach (fun s a => creates s a = true)
      (slotStart t recvPool sendPool maxSessionCount) s) :
    ∃ l, listenerMachine.Reach (fun _ _ => True)
      (listenerStart t recvPool sendPool maxSessionCount) l ∧ s = withListener l := by
  refine h.invariant (fun s => ∃ l, listenerMachine.Reach (fun _ _ => True)
    (listenerStart t recvPool sendPool maxSessionCount) l ∧ s = withListener l) ?_ ?_
  · exact ⟨_, .start, rfl⟩
  · intro s act s' _ ih hact hnext
    obtain ⟨l, hl, rfl⟩ := ih
    obtain ⟨act', l', hnext', rfl⟩ := withListener_next hact hnext
    exact ⟨l', .next hl trivial hnext', rfl⟩

/-- Each context of `StartAccept` is worked on by one thread, or one completion is due for it. -/
theorem holders_eq {l : ListenerConf T S}
    (h : listenerMachine.Reach (fun _ _ => True)
      (listenerStart t recvPool sendPool maxSessionCount) l) :
    l.mem.mMaxSessionCount = maxSessionCount ∧ ∀ a < maxSessionCount, holders a l = 1 := by
  refine h.invariant (fun l => l.mem.mMaxSessionCount = maxSessionCount ∧
    ∀ a < maxSessionCount, holders a l = 1) ⟨rfl, ?_⟩ ?_
  · intro a _
    have hframes := weight_update (ListenerFrame.holds a : ListenerFrame T S → ℕ) (fun _ => []) t
      [.startAccept 0]
    simpa [ListenerFrame.holds, holders, listenerStart, AcceptContext.posted] using hframes
  · intro l act l' _ ih _ hnext
    cases listener_move hnext with
    | enter u c f mem _ hstep =>
      refine ⟨by rw [← ih.1, hstep.adds.2.2], ?_⟩
      intro a ha
      have hframes := weight_enter (ListenerFrame.holds a) l.frames u f
      have hkept := hstep.holds_kept a
      have hone := ih.2 a ha
      simp only [holders] at hone ⊢
      omega
    | step u c f fs new mem hf hstep =>
      refine ⟨by rw [← ih.1, hstep.mMaxSessionCount], ?_⟩
      intro a ha
      have hframes := weight_step (ListenerFrame.holds a) hf new
      have htop := top_le_weight (ListenerFrame.holds a) hf
      have hone := ih.2 a ha
      simp only [holders] at hone ⊢
      have hkept := hstep.holds_kept (ih.1.symm ▸ ha) (by omega)
      omega

theorem found_reach {l : ListenerConf T S}
    (h : listenerMachine.Reach (fun _ _ => True)
      (listenerStart t recvPool sendPool maxSessionCount) l) : Found l := by
  refine h.invariant Found ?_ ?_
  · refine ⟨?_, ?_⟩
    · intro a ha
      simp [listenerStart] at ha
    · intro u a f hf hcarries
      rw [listenerStart_frames hf] at hcarries
      simp [ListenerFrame.carries] at hcarries
  · intro l act l' _ ih _ hnext
    cases listener_move hnext with
    | enter u c f mem _ hstep =>
      refine ⟨?_, ?_⟩
      · intro a ha
        rw [hstep.mSession]
        exact ih.pending a (hstep.carries.2 ha)
      · intro v a g hg hcarries
        rw [hstep.mSession]
        rcases mem_push hg with rfl | hg
        · exact ih.pending a (hstep.carries.1 hcarries)
        · exact ih.working v a g hg hcarries
    | step u c f fs new mem hf hstep =>
      have htop : f ∈ l.frames u := hf ▸ List.mem_cons_self
      refine ⟨?_, ?_⟩
      · intro a ha
        apply hstep.mSession_kept
        rcases hstep.pending_kept ha with hold | rfl
        · exact ih.pending a hold
        · exact ih.working u a _ htop (by simp [ListenerFrame.carries])
      · intro v a g hg hcarries
        rcases mem_update new hg with ⟨_, hnew⟩ | hother
        · rcases hstep.carries hnew hcarries with hold | hsession
          · exact hstep.mSession_kept (ih.working u a f htop hold)
          · exact hsession
        · exact hstep.mSession_kept (ih.working v a g (hother.mem hf) hcarries)

/-- An armed context waits with a session that is being accepted, so it is not connected. -/
theorem armed_session {l : ListenerConf T S}
    (h : listenerMachine.Reach (fun _ _ => True)
      (listenerStart t recvPool sendPool maxSessionCount) l) {a : ℕ}
    (ha : (l.mem.accept a).pending = true) :
    ∃ x, (l.mem.accept a).mSession = some x ∧ (l.mem.system.session x).accepting = true ∧
      (l.mem.system.session x).mIsConnected = false ∧
      ∀ b, (l.mem.accept b).mSession = some x → b = a := by
  obtain ⟨x, hx⟩ := Option.ne_none_iff_exists'.mp ((found_reach h).pending a ha)
  have harmed := armed_reach h
  have haccepting : (l.mem.system.session x).accepting = true := by
    rcases harmed.accepting a x hx with haccepting | ⟨u, hg⟩
    · exact haccepting
    · have hone := holders_le h a
      have hframe := le_stackWeight (ListenerFrame.holds a) hg
      have hall := le_weight (ListenerFrame.holds a) l.frames u
      simp only [holders, AcceptContext.posted, ha, if_true] at hone
      simp only [ListenerFrame.holds, if_true] at hframe
      omega
  have htoken := disconnectToken_le (listener_refines h) x
  have hsession : (sessionsOf l).mem.session x = l.mem.system.session x := rfl
  simp only [Potential.total, disconnectToken, Session.unconnected, hsession, haccepting,
    Bool.toNat_true] at htoken
  refine ⟨x, hx, haccepting, ?_, fun b hb => harmed.distinct b a x hb hx⟩
  cases hconnected : (l.mem.system.session x).mIsConnected with
  | false => rfl
  | true =>
    rw [hconnected, Bool.toNat_true] at htoken
    omega

omit [DecidableEq T] [DecidableEq S] in
theorem weight_withListener (s : ListenerConf T S) (a : ℕ) :
    weight (SlotFrame.holds a) (withListener s).frames = weight (ListenerFrame.holds a) s.frames := by
  simp only [weight, stackWeight, withListener, List.map_map]
  rfl

/-- In every run in which each `CreateSession` succeeds no accept slot is lost, and no null session
is accessed. -/
theorem slots_kept {s : SlotConf T S}
    (h : slotMachine.Reach (fun s a => creates s a = true)
      (slotStart t recvPool sendPool maxSessionCount) s) : SlotsKept s := by
  obtain ⟨l, hl, rfl⟩ := listener_of_creates h
  obtain ⟨hmax, hone⟩ := holders_eq hl
  refine ⟨?_, fun a ha => armed_session hl ha, ?_, ?_⟩
  · intro a ha
    rw [weight_withListener]
    exact hone a (hmax ▸ ha)
  · intro u a hg
    obtain ⟨f, _, hf⟩ := List.mem_map.mp hg
    cases hf
  · intro u a hg
    obtain ⟨f, hmem, hf⟩ := List.mem_map.mp hg
    obtain rfl := SlotFrame.listener.inj hf
    exact (found_reach hl).working u a _ hmem (by simp [ListenerFrame.carries])

end

/-- `StartAccept` posts the only context. -/
def oneSlot : SlotConf Unit Bool :=
  slotStart () (.initializePool 16384 true (some 1) () 1)
    (.initializePool 32768 true (some 2) () 1) 1

/-- The context is armed, a client is accepted, and the context is armed again. -/
def armedTwice : List (Action Unit (SlotChoice Unit Bool)) :=
  [.step () (.listener (.session .go)), .step () (.listener (.create true)),
    .step () (.listener (.session (.result true))), .step () (.listener (.session .go)),
    .enter () (.listener (.completed (.accept 0) true)), .step () (.listener (.session .go)),
    .step () (.listener (.session .go)), .step () (.listener (.session (.result false))),
    .step () (.listener (.create false)), .step () (.listener (.session (.result true)))]

theorem slots_kept_armedTwice : ∃ s : SlotConf Unit Bool,
    (s.mem.accept 0).mSession = some false ∧ (s.mem.accept 0).pending = true ∧ SlotsKept s := by
  have hr := Machine.reach_finalChecked slotMachine creates oneSlot armedTwice (by decide)
  exact ⟨_, by decide, by decide, slots_kept hr⟩

theorem failed_creation_crashes : ¬∀ s : SlotConf Unit Bool,
    slotMachine.Reach (fun _ _ => True) oneSlot s → SlotsKept s := by
  intro claim
  have hr := Machine.reach_final slotMachine oneSlot
    [.step () (.listener (.session .go)), .step () (.createFailed true)] (by decide)
  exact (claim _ hr).created () 0 (by decide)

end ServerCore.Network
