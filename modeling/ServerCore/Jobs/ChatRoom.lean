import ServerCore.Jobs.JobQueueInvariant

namespace ServerCore.Jobs

open Framework ConcurrentQueue

/-- The asynchronous jobs of a chat room. -/
inductive RoomJob (S : Type) where
  | enter (session : S)
  | leave (session : S)
  deriving DecidableEq

/-- `mSessionList` of a room and `mRoomID` of the sessions. -/
structure ChatRoom (S : Type) where
  mSessionList : Int → Option S
  sessionRoomID : S → Int

namespace ChatRoom

variable {S : Type} [DecidableEq S]

def init : ChatRoom S := ⟨fun _ => none, fun _ => -1⟩

def enter (getSessionID : S → Int) (mRoomID : Int) (r : ChatRoom S) (session : S) : ChatRoom S :=
  ⟨Function.update r.mSessionList (getSessionID session) (some session),
    Function.update r.sessionRoomID session mRoomID⟩

def leave (getSessionID : S → Int) (r : ChatRoom S) (session : S) : ChatRoom S :=
  ⟨Function.update r.mSessionList (getSessionID session) none,
    Function.update r.sessionRoomID session (-1)⟩

def execute (getSessionID : S → Int) (mRoomID : Int) (r : ChatRoom S) : RoomJob S → ChatRoom S
  | .enter session => r.enter getSessionID mRoomID session
  | .leave session => r.leave getSessionID session

/-- The room after the jobs of a list. -/
def after {T : Type} (getSessionID : S → Int) (mRoomID : Int)
    (ran : ConcurrentQueue T (RoomJob S)) : ChatRoom S :=
  ran.foldl (fun r e => r.execute getSessionID mRoomID e.2) init

/-- The session is in the room's list, under whatever key. -/
def Holds (r : ChatRoom S) (session : S) : Prop := ∃ id, r.mSessionList id = some session

theorem after_append {T : Type} (getSessionID : S → Int) (mRoomID : Int)
    (xs : ConcurrentQueue T (RoomJob S)) (e : T × RoomJob S) :
    after getSessionID mRoomID (xs ++ [e]) =
      (after getSessionID mRoomID xs).execute getSessionID mRoomID e.2 := by
  simp [after]

/-- A session stands in the list under its own ID only. -/
theorem after_key {T : Type} (getSessionID : S → Int) (mRoomID : Int)
    (xs : ConcurrentQueue T (RoomJob S)) (session : S) (id : Int)
    (h : (after getSessionID mRoomID xs).mSessionList id = some session) :
    id = getSessionID session := by
  induction xs using List.reverseRecOn generalizing id with
  | nil => simp [after, init] at h
  | append_singleton xs e ih =>
    rw [after_append] at h
    obtain ⟨t, job⟩ := e
    cases job with
    | enter y =>
      by_cases hid : id = getSessionID y
      · subst id
        have e : y = session := by simpa [execute, enter] using h
        rw [e]
      · exact ih id (by simpa [execute, enter, hid] using h)
    | leave y =>
      by_cases hid : id = getSessionID y
      · subst id
        simp [execute, leave] at h
      · exact ih id (by simpa [execute, leave, hid] using h)

/-- After the `Leave` of a session and no later `Enter` of it, the room has forgotten it. -/
theorem after_leave {T : Type} (getSessionID : S → Int) (mRoomID : Int) (t : T) (session : S)
    (xs ys : ConcurrentQueue T (RoomJob S)) (hys : ∀ u, (u, .enter session) ∉ ys) :
    ¬(after getSessionID mRoomID (xs ++ (t, .leave session) :: ys)).Holds session ∧
      (after getSessionID mRoomID (xs ++ (t, .leave session) :: ys)).sessionRoomID session = -1 := by
  induction ys using List.reverseRecOn with
  | nil =>
    rw [after_append]
    refine ⟨?_, by simp [execute, leave]⟩
    rintro ⟨id, hid⟩
    by_cases he : id = getSessionID session
    · simp [execute, leave, he] at hid
    · have old := by simpa [execute, leave, he] using hid
      exact he (after_key getSessionID mRoomID xs session id old)
  | append_singleton ys e ih =>
    obtain ⟨hno, hroom⟩ := ih fun u hu => hys u (by simp [hu])
    rw [← List.cons_append, ← List.append_assoc, after_append]
    obtain ⟨u, job⟩ := e
    cases job with
    | enter y =>
      have hy : y ≠ session := by rintro rfl; exact hys u (by simp)
      refine ⟨?_, by simpa [execute, enter, Ne.symm hy] using hroom⟩
      rintro ⟨id, hid⟩
      by_cases he : id = getSessionID y
      · simp [execute, enter, he, hy] at hid
      · exact hno ⟨id, by simpa [execute, enter, he] using hid⟩
    | leave y =>
      constructor
      · rintro ⟨id, hid⟩
        by_cases he : id = getSessionID y
        · simp [execute, leave, he] at hid
        · exact hno ⟨id, by simpa [execute, leave, he] using hid⟩
      · by_cases hy : session = y
        · simp [execute, leave, hy]
        · simpa [execute, leave, hy] using hroom

end ChatRoom

section History

variable {T Q J : Type} [DecidableEq T] [DecidableEq Q]

/-- The steps that move the jobs of `q`: counted by `Push`, enqueued, handed out. -/
theorem step_history {s s' : Mem T Q J} {t : T} {f : Frame T Q J} {c : Choice T Q J}
    {new : List (Frame T Q J)} (h : step s t f c = some (s', new)) (q : Q) :
    (s'.pushed q = s.pushed q ∧ s'.taken q = s.taken q ∧ s'.mJobQueue q = s.mJobQueue q) ∨
    (∃ job pushOnly, f = .push q job pushOnly ∧ c = .go ∧
      s'.pushed q = s.pushed q ++ [(t, job)] ∧ s'.taken q = s.taken q ∧
      s'.mJobQueue q = s.mJobQueue q) ∨
    (∃ job pushOnly prevCount, f = .enqueue q job pushOnly prevCount ∧
      s'.pushed q = s.pushed q ∧ s'.taken q = s.taken q ∧
      s'.mJobQueue q = s.mJobQueue q ++ [(t, job)]) ∨
    (∃ producers xs rest, f = .drain q ∧ c = .take producers ∧
      takeBulk producers (s.mJobQueue q) = some (xs, rest) ∧ s'.pushed q = s.pushed q ∧
      s'.taken q = s.taken q ++ xs ∧ s'.mJobQueue q = rest) := by
  by_cases hdrain : ∃ q', f = .drain q'
  · obtain ⟨q', rfl⟩ := hdrain
    cases c <;> simp only [step, executeStep, reduceCtorEq] at h
    split at h
    · simp only [Option.map_eq_some_iff, Prod.mk.injEq] at h
      obtain ⟨⟨xs, rest⟩, hr, rfl, rfl⟩ := h
      by_cases hq : q' = q
      · subst hq
        exact .inr (.inr (.inr ⟨_, xs, rest, rfl, rfl, hr, rfl, by simp [Mem.dequeued],
          by simp [Mem.dequeued]⟩))
      · exact .inl (by simp [Mem.dequeued, Ne.symm hq])
    · simp at h
  by_cases hpush : ∃ q' job pushOnly, f = .push q' job pushOnly
  · obtain ⟨q', job, pushOnly, rfl⟩ := hpush
    cases c <;> simp [step, pushStep] at h
    obtain ⟨rfl, rfl⟩ := h
    by_cases hq : q' = q
    · subst hq
      exact .inr (.inl ⟨job, pushOnly, rfl, rfl, by simp [Mem.fetchAdd, ConcurrentQueue.enqueue],
        rfl, rfl⟩)
    · exact .inl (by simp [Mem.fetchAdd, Ne.symm hq])
  cases step_spec h with
  | push q' job pushOnly => exact absurd ⟨q', job, pushOnly, rfl⟩ hpush
  | drain q' _ _ _ _ => exact absurd ⟨q', rfl⟩ hdrain
  | enqueue q' job pushOnly prevCount =>
    by_cases hq : q' = q
    · subst hq
      exact .inr (.inr (.inl ⟨job, pushOnly, prevCount, rfl, rfl, rfl,
        by simp [Mem.enqueueJob, ConcurrentQueue.enqueue]⟩))
    · exact .inl (by simp [Mem.enqueueJob, Ne.symm hq])
  | _ => exact .inl ⟨rfl, rfl, rfl⟩

end History

section Room

variable {T Q S : Type} [DecidableEq T] [DecidableEq Q] [DecidableEq S]

abbrev RoomConf (T Q S : Type) : Type :=
  Conf T (Mem T Q (RoomJob S)) (Frame T Q (RoomJob S))

/-- The use that the sessions make of the rooms: each pushes `Enter` once, and its `Leave`
only when that `Enter` is in the room's queue or past it. -/
def sessionOrder (s : RoomConf T Q S) : Action T (Choice T Q (RoomJob S)) → Bool
  | .step t .go =>
      match s.frames t with
      | .push q (.enter session) _ :: _ =>
          decide (RoomJob.enter session ∉ (s.mem.pushed q).map Prod.snd)
      | .push q (.leave session) _ :: _ =>
          decide (RoomJob.enter session ∈ (s.mem.taken q ++ s.mem.mJobQueue q).map Prod.snd)
      | _ => true
  | _ => true

/-- No `Leave` of the batch goes ahead of the `Enter` of its session. -/
def entersFirst : ConcurrentQueue T (RoomJob S) → ConcurrentQueue T (RoomJob S) → Bool
  | [], _ => true
  | (_, .enter _) :: xs, rest => entersFirst xs rest
  | (_, .leave session) :: xs, rest =>
      decide (RoomJob.enter session ∉ (xs ++ rest).map Prod.snd) && entersFirst xs rest

/-- No bulk dequeue hands out a `Leave` and keeps that session's `Enter` for later. -/
def enterFirst (s : RoomConf T Q S) : Action T (Choice T Q (RoomJob S)) → Bool
  | .step t (.take producers) =>
      match s.frames t with
      | .drain q :: _ =>
          match takeBulk producers (s.mem.mJobQueue q) with
          | some (xs, rest) => entersFirst xs rest
          | none => true
      | _ => true
  | _ => true

omit [DecidableEq T] in
theorem entersFirst_spec {before later rest : ConcurrentQueue T (RoomJob S)} {u v : T}
    {session : S} (h : entersFirst (before ++ (u, .leave session) :: later) rest = true) :
    (v, .enter session) ∉ later ++ rest := by
  induction before with
  | nil =>
    simp only [List.nil_append, entersFirst, Bool.and_eq_true, decide_eq_true_eq] at h
    intro hv
    exact h.1 (List.mem_map_of_mem (f := Prod.snd) hv)
  | cons e before ih =>
    obtain ⟨w, job⟩ := e
    cases job with
    | enter y => exact ih h
    | leave y =>
      simp only [List.cons_append, entersFirst, Bool.and_eq_true] at h
      exact ih h.2

/-- Whenever all pushed jobs of the room have run, it has forgotten every session that left. -/
def Forgets (getSessionID : S → Int) (mRoomID : Q → Int) (q : Q) (s : RoomConf T Q S) : Prop :=
  (∀ p, ofProducer p (s.mem.ran q) = ofProducer p (s.mem.pushed q)) →
    ∀ u session, (u, .leave session) ∈ s.mem.ran q →
      ¬(ChatRoom.after getSessionID (mRoomID q) (s.mem.ran q)).Holds session ∧
        (ChatRoom.after getSessionID (mRoomID q) (s.mem.ran q)).sessionRoomID session = -1

structure RoomInv (q : Q) (s : RoomConf T Q S) : Prop where
  entered : ∀ u session, (u, .leave session) ∈ s.mem.pushed q →
    ∃ v, (v, .enter session) ∈ s.mem.taken q ++ s.mem.mJobQueue q
  one : ∀ u v session, (u, .enter session) ∈ s.mem.pushed q →
    (v, .enter session) ∈ s.mem.pushed q → u = v
  once : ∀ u session, (s.mem.pushed q).count (u, .enter session) ≤ 1
  past : ∀ before u session later, s.mem.taken q = before ++ (u, .leave session) :: later →
    ∀ v, (v, .enter session) ∉ later ++ s.mem.mJobQueue q

omit [DecidableEq Q] in
theorem RoomInv.push {q : Q} {s s' : RoomConf T Q S} (h : RoomInv q s) {t : T}
    {job : RoomJob S} {pushOnly : Bool} {fs : List (Frame T Q (RoomJob S))}
    (hl : sessionOrder s (.step t .go) = true) (hf : s.frames t = .push q job pushOnly :: fs)
    (hp : s'.mem.pushed q = s.mem.pushed q ++ [(t, job)])
    (ht : s'.mem.taken q = s.mem.taken q) (hq : s'.mem.mJobQueue q = s.mem.mJobQueue q) :
    RoomInv q s' := by
  have fresh (session : S) (hj : job = .enter session) (u : T) :
      (u, .enter session) ∉ s.mem.pushed q := by
    subst hj
    simp only [sessionOrder, hf, decide_eq_true_eq] at hl
    exact fun hu => hl (List.mem_map_of_mem (f := Prod.snd) hu)
  constructor
  · intro u session hm
    rw [hp, List.mem_append] at hm
    rw [ht, hq]
    rcases hm with hm | hm
    · exact h.entered u session hm
    · obtain ⟨-, rfl⟩ : u = t ∧ job = .leave session := by simpa [eq_comm] using hm
      simp only [sessionOrder, hf, decide_eq_true_eq] at hl
      obtain ⟨⟨v, job⟩, hv, rfl⟩ := List.mem_map.mp hl
      exact ⟨v, hv⟩
  · intro u v session hu hv
    rw [hp, List.mem_append] at hu hv
    have new {w : T} (hw : (w, .enter session) ∈ [(t, job)]) : w = t ∧ job = .enter session := by
      simpa [eq_comm] using hw
    rcases hu with hu | hu <;> rcases hv with hv | hv
    · exact h.one u v session hu hv
    · exact absurd hu (fresh session (new hv).2 u)
    · exact absurd hv (fresh session (new hu).2 v)
    · exact (new hu).1.trans (new hv).1.symm
  · intro u session
    rw [hp, List.count_append]
    by_cases hj : job = .enter session
    · have hzero := List.count_eq_zero.mpr (fresh session hj u)
      have hone := List.count_le_length (a := (u, RoomJob.enter session)) (l := [(t, job)])
      simp only [List.length_singleton] at hone
      omega
    · have hzero : List.count (u, RoomJob.enter session) [(t, job)] = 0 :=
        List.count_eq_zero.mpr (by simp [Ne.symm hj])
      have := h.once u session
      omega
  · rw [ht, hq]
    exact h.past

theorem RoomInv.enqueue {q : Q} {s s' : RoomConf T Q S} [Fintype T] (hi : Inv s)
    (h : RoomInv q s) {t : T} {job : RoomJob S} {pushOnly : Bool} {prevCount : Int}
    {fs : List (Frame T Q (RoomJob S))}
    (hf : s.frames t = .enqueue q job pushOnly prevCount :: fs)
    (hp : s'.mem.pushed q = s.mem.pushed q) (ht : s'.mem.taken q = s.mem.taken q)
    (hq : s'.mem.mJobQueue q = s.mem.mJobQueue q ++ [(t, job)]) : RoomInv q s' := by
  have order (p : T) := hi.order q p
  -- the job being enqueued is the one pending, so it is counted once more in `pushed`
  have pend : pendingTop q (s.frames t) = [job] := by simp [pendingTop, Frame.pending, hf]
  have pushed {u : T} {job' : RoomJob S} (hm : (u, job') ∈ s.mem.taken q ++ s.mem.mJobQueue q) :
      (u, job') ∈ s.mem.pushed q := by
    rw [← mem_ofProducer, order u]
    rcases List.mem_append.mp hm with hm | hm
    · simp [mem_ofProducer, hm]
    · simp [mem_ofProducer, hm]
  have mine : (t, job) ∈ s.mem.pushed q := by
    rw [← mem_ofProducer, order t, pend]
    simp
  constructor
  · intro u session hm
    rw [hp] at hm
    obtain ⟨v, hv⟩ := h.entered u session hm
    refine ⟨v, ?_⟩
    rw [ht, hq, ← List.append_assoc]
    exact List.mem_append_left _ hv
  · rw [hp]
    exact h.one
  · rw [hp]
    exact h.once
  · intro before u session later hb v hv
    rw [ht] at hb
    rw [hq, ← List.append_assoc, List.mem_append] at hv
    rcases hv with hv | hv
    · exact h.past before u session later hb v hv
    · obtain ⟨rfl, rfl⟩ : v = t ∧ job = .enter session := by simpa [eq_comm] using hv
      have left : (u, .leave session) ∈ s.mem.pushed q := pushed (by simp [hb])
      obtain ⟨w, hw⟩ := h.entered u session left
      have hwv : w = v := h.one w v session (pushed hw) mine
      subst hwv
      have hone := h.once w session
      rw [← count_ofProducer, order w, pend, List.count_append, List.count_append,
        count_ofProducer, count_ofProducer] at hone
      have hpos := List.count_pos_iff.mpr hw
      rw [List.count_append] at hpos
      simp only [List.count_singleton_self] at hone
      omega

omit [DecidableEq Q] in
theorem RoomInv.take {q : Q} {s s' : RoomConf T Q S} (h : RoomInv q s) {t : T}
    {producers : List T} {fs : List (Frame T Q (RoomJob S))}
    {xs rest : ConcurrentQueue T (RoomJob S)} (he : enterFirst s (.step t (.take producers)) = true)
    (hf : s.frames t = .drain q :: fs)
    (hx : takeBulk producers (s.mem.mJobQueue q) = some (xs, rest))
    (hp : s'.mem.pushed q = s.mem.pushed q) (ht : s'.mem.taken q = s.mem.taken q ++ xs)
    (hq : s'.mem.mJobQueue q = rest) : RoomInv q s' := by
  have hperm := (takeBulk_spec hx).1
  have hfirst : entersFirst xs rest = true := by simpa [enterFirst, hf, hx] using he
  constructor
  · intro u session hm
    rw [hp] at hm
    obtain ⟨v, hv⟩ := h.entered u session hm
    refine ⟨v, ?_⟩
    rw [ht, hq, List.append_assoc, List.mem_append]
    exact (List.mem_append.mp hv).imp_right hperm.mem_iff.mp
  · rw [hp]
    exact h.one
  · rw [hp]
    exact h.once
  · intro before u session later hb v hv
    rw [ht] at hb
    rw [hq] at hv
    rcases List.append_eq_append_iff.mp hb with ⟨mid, rfl, hxs⟩ | ⟨mid, htaken, hlater⟩
    · exact entersFirst_spec (hxs ▸ hfirst) hv
    · cases mid with
      | nil =>
        have hxs : xs = [] ++ (u, .leave session) :: later := by simpa using hlater.symm
        exact entersFirst_spec (hxs ▸ hfirst) hv
      | cons e mid =>
        rw [List.cons_append, List.cons.injEq] at hlater
        obtain ⟨rfl, rfl⟩ := hlater
        apply h.past before u session mid htaken v
        rw [List.append_assoc, List.mem_append] at hv
        exact List.mem_append.mpr (hv.imp_right hperm.mem_iff.mpr)

theorem RoomInv.next [Fintype T] {s s' : RoomConf T Q S} {a : Action T (Choice T Q (RoomJob S))}
    (hi : Inv s) {q : Q} (h : RoomInv q s) (hl : sessionOrder s a = true)
    (he : enterFirst s a = true)
    (hs' : machine.next s a = some s') : RoomInv q s' := by
  have same (s' : RoomConf T Q S) (hp : s'.mem.pushed q = s.mem.pushed q)
      (ht : s'.mem.taken q = s.mem.taken q) (hq : s'.mem.mJobQueue q = s.mem.mJobQueue q) :
      RoomInv q s' := by
    constructor
    · rw [hp, ht, hq]; exact h.entered
    · rw [hp]; exact h.one
    · rw [hp]; exact h.once
    · rw [ht, hq]; exact h.past
  rcases Machine.next_cases hs' with ⟨t, c, mem, f, rfl, hr, rfl⟩ |
    ⟨t, c, f, fs, mem, new, rfl, hf, hr, rfl⟩ | ⟨c, mem, rfl, hr, rfl⟩
  · obtain ⟨_, rfl, _⟩ := enter_spec hr
    exact same _ rfl rfl rfl
  · rcases step_history hr q with ⟨hp, ht, hq⟩ | ⟨job, pushOnly, rfl, rfl, hp, ht, hq⟩ |
      ⟨job, pushOnly, prevCount, rfl, hp, ht, hq⟩ | ⟨producers, xs, rest, rfl, rfl, hx, hp, ht, hq⟩
    · exact same _ hp ht hq
    · exact h.push hl hf hp ht hq
    · exact h.enqueue hi hf hp ht hq
    · exact h.take he hf hx hp ht hq
  · obtain ⟨ticks, rfl⟩ := env_spec hr
    exact same _ rfl rfl rfl

/-- In a run whose dequeues hand out every `Enter` before the `Leave` of its session, a room
forgets the sessions that left. -/
theorem room_forgets [Fintype T] (getSessionID : S → Int) (mRoomID : Q → Int) (q : Q)
    {s : RoomConf T Q S}
    (h : machine.Reach (fun s a => sessionOrder s a = true ∧ enterFirst s a = true) start s) :
    Forgets getSessionID mRoomID q s := by
  have inv : Inv s ∧ RoomInv q s := by
    refine h.invariant (fun s => Inv s ∧ RoomInv q s) ⟨.start, ?_⟩ ?_
    · constructor <;> simp [start, Mem.init]
    · intro s a s' _ hi hok hs
      exact ⟨hi.1.next hs, hi.2.next hi.1 hok.1 hok.2 hs⟩
  intro _ u session hm
  obtain ⟨before, later, hran⟩ := List.append_of_mem hm
  obtain ⟨left, htaken⟩ := inv.1.taken_eq q
  rw [hran, List.append_assoc, List.cons_append] at htaken
  have hno (v : T) : (v, .enter session) ∉ later := fun hv =>
    inv.2.past before u session _ htaken v (by simp [hv])
  rw [hran]
  exact ChatRoom.after_leave getSessionID (mRoomID q) u session before later hno

end Room

/-- Thread 2 runs a batch of the room while session `true` enters on thread 0 and leaves on
thread 1. -/
def enterThenLeave : List (Action (Fin 3) (Choice (Fin 3) Unit (RoomJob Bool))) :=
  [.env (.setEndTick 2 64), .enter 2 (.callPush () (.enter false) false),
    .step 2 .go, .step 2 .go, .step 2 .go, .step 2 .go, .step 2 (.take [2]), .step 2 .go,
    .enter 0 (.callPush () (.enter true) false), .step 0 .go, .step 0 .go, .step 0 .go,
    .enter 1 (.callPush () (.leave true) false), .step 1 .go, .step 1 .go, .step 1 .go,
    .step 2 .go, .step 2 .go, .step 2 (.clock 10)]

/-- Runs the two jobs of the second batch. -/
def runSecondBatch : List (Action (Fin 3) (Choice (Fin 3) Unit (RoomJob Bool))) :=
  [.step 2 .go, .step 2 .go, .step 2 .go, .step 2 .go, .step 2 .go]

def sessionIDs (session : Bool) : Int := if session then 2 else 1

/-- The queue may serve the producer of the `Leave` first; the session then stays. -/
theorem room_keeps_leaver : ¬∀ s : RoomConf (Fin 3) Unit Bool,
    machine.Reach (fun s a => sessionOrder s a = true) start s →
      Forgets sessionIDs (fun _ => 0) () s := by
  intro claim
  have hr := Machine.reach_finalChecked machine sessionOrder start
    (enterThenLeave ++ [.step 2 (.take [1, 0])] ++ runSecondBatch) (by decide)
  have h := claim _ hr (by decide) 1 true (by decide)
  exact absurd h.2 (by decide)

theorem room_forgets_enterThenLeave :
    ∃ s : RoomConf (Fin 3) Unit Bool,
      (1, .leave true) ∈ s.mem.ran () ∧ Forgets sessionIDs (fun _ => 0) () s := by
  have hr := Machine.reach_finalChecked machine
    (fun s a => sessionOrder s a && enterFirst s a) start
    (enterThenLeave ++ [.step 2 (.take [0, 1])] ++ runSecondBatch) (by decide)
  refine ⟨_, by decide, room_forgets sessionIDs (fun _ => 0) () (hr.mono fun s a hok => ?_)⟩
  simpa using hok

end ServerCore.Jobs
