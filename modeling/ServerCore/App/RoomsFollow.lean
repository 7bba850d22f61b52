import ServerCore.App.RoomPresence

namespace ServerCore.App.Rooms

open Framework ConcurrentQueue
open Network (SessionFrame ChatRoomManager enterToken)

section Replay

variable {T S : Type} [DecidableEq S]

/-- Only the numbers of the sessions of its jobs matter to a room. -/
theorem after_congr {id id' : S → Int} (mRoomID : Int) {xs : ConcurrentQueue T (Jobs.RoomJob S)}
    (h : ∀ e ∈ xs, id e.2.session = id' e.2.session) :
    Jobs.ChatRoom.after id mRoomID xs = Jobs.ChatRoom.after id' mRoomID xs := by
  induction xs using List.reverseRecOn with
  | nil => rfl
  | append_singleton xs e ih =>
    have hlast := h e (List.mem_append_right _ (List.mem_singleton_self e))
    rw [Jobs.ChatRoom.after_append, Jobs.ChatRoom.after_append,
      ih fun e he => h e (List.mem_append_left _ he)]
    obtain ⟨t, job⟩ := e
    cases job with
    | enter y =>
      have hlast' : id y = id' y := hlast
      simp only [Jobs.ChatRoom.execute, Jobs.ChatRoom.enter, hlast']
    | leave y =>
      have hlast' : id y = id' y := hlast
      simp only [Jobs.ChatRoom.execute, Jobs.ChatRoom.leave, hlast']

/-- A session without jobs in the room is not labelled by it. -/
theorem after_untouched (id : S → Int) (mRoomID : Int) {x : S}
    {xs : ConcurrentQueue T (Jobs.RoomJob S)} (h : ∀ e ∈ xs, e.2.session ≠ x) :
    (Jobs.ChatRoom.after id mRoomID xs).sessionRoomID x = -1 := by
  induction xs using List.reverseRecOn with
  | nil => rfl
  | append_singleton xs e ih =>
    have hlast := h e (List.mem_append_right _ (List.mem_singleton_self e))
    have hbefore := ih fun e he => h e (List.mem_append_left _ he)
    rw [Jobs.ChatRoom.after_append]
    obtain ⟨t, job⟩ := e
    cases job with
    | enter y =>
      have hne : x ≠ y := Ne.symm hlast
      simpa [Jobs.ChatRoom.execute, Jobs.ChatRoom.enter, hne] using hbefore
    | leave y =>
      have hne : x ≠ y := Ne.symm hlast
      simpa [Jobs.ChatRoom.execute, Jobs.ChatRoom.leave, hne] using hbefore

/-- After the `Enter` of a session, and neither its `Leave` nor a job of another session with its
number, the room has it. -/
theorem after_enter (id : S → Int) (mRoomID : Int) (t : T) (x : S)
    (xs ys : ConcurrentQueue T (Jobs.RoomJob S)) (hleave : ∀ u, (u, .leave x) ∉ ys)
    (hid : ∀ e ∈ ys, id e.2.session = id x → e.2.session = x) :
    (Jobs.ChatRoom.after id mRoomID (xs ++ (t, .enter x) :: ys)).mSessionList (id x) = some x ∧
      (Jobs.ChatRoom.after id mRoomID (xs ++ (t, .enter x) :: ys)).sessionRoomID x = mRoomID := by
  induction ys using List.reverseRecOn with
  | nil =>
    rw [Jobs.ChatRoom.after_append]
    simp [Jobs.ChatRoom.execute, Jobs.ChatRoom.enter]
  | append_singleton ys e ih =>
    obtain ⟨hlist, hroom⟩ := ih (fun u hu => hleave u (List.mem_append_left _ hu))
      fun e he => hid e (List.mem_append_left _ he)
    have hlast := hid e (List.mem_append_right _ (List.mem_singleton_self e))
    rw [← List.cons_append, ← List.append_assoc, Jobs.ChatRoom.after_append]
    obtain ⟨u, job⟩ := e
    cases job with
    | enter y =>
      by_cases hy : y = x
      · subst hy
        simp [Jobs.ChatRoom.execute, Jobs.ChatRoom.enter]
      · have hne : id x ≠ id y := fun heq => hy (hlast heq.symm)
        simpa [Jobs.ChatRoom.execute, Jobs.ChatRoom.enter, hne, Ne.symm hy] using ⟨hlist, hroom⟩
    | leave y =>
      have hy : y ≠ x := by
        rintro rfl
        exact hleave u (List.mem_append_right _ (List.mem_singleton_self _))
      have hne : id x ≠ id y := fun heq => hy (hlast heq.symm)
      simpa [Jobs.ChatRoom.execute, Jobs.ChatRoom.leave, hne, Ne.symm hy] using ⟨hlist, hroom⟩

end Replay

variable {T S : Type} [DecidableEq T] [DecidableEq S] [Fintype T]
  {recvPool sendPool : Network.RegisteredBufferPool T} {s s' : RoomsConf T S}
  {a : Action T (Choice T S)} {ok : RoomsConf T S → Action T (Choice T S) → Prop}

/-- A job of room `q` that has not changed `mSessionList`. -/
def Frame.unlisted (q : ℕ) : Frame T S → ℕ
  | .changeList q' _ => if q' = q then 1 else 0
  | _ => 0

/-- A job of room `q` that has not called `SetRoomID`. -/
def Frame.unlabelled (q : ℕ) : Frame T S → ℕ
  | .changeList q' _ | .setRoomID q' _ => if q' = q then 1 else 0
  | _ => 0

/-- The room that the first jobs of `q` leave, but for the last `n` that were started. -/
def replay (s : RoomsConf T S) (q n : ℕ) : Jobs.ChatRoom S :=
  Jobs.ChatRoom.after s.mem.GetSessionID (roomID q)
    ((s.mem.jobs.ran q).take ((s.mem.jobs.ran q).length - n))

/-- The lists and the labels are those that the jobs leave one after another. -/
structure Replayed (q : ℕ) (s : RoomsConf T S) : Prop where
  listed : s.mem.mSessionList q =
    (replay s q (weight (Frame.unlisted q) s.frames)).mSessionList
  labelled : ∀ x, s.mem.GetChatRoom x = q →
    s.mem.mRoomID x = (replay s q (weight (Frame.unlabelled q) s.frames)).sessionRoomID x

omit [DecidableEq T] [DecidableEq S] [Fintype T] in
theorem unlisted_le (q : ℕ) (f : Frame T S) :
    f.unlisted q ≤ f.unlabelled q ∧ f.unlabelled q ≤ f.room q := by
  cases f <;> exact ⟨by simp [Frame.unlisted, Frame.unlabelled], by
    simp [Frame.unlabelled, Frame.room]⟩

omit [Fintype T] [DecidableEq T] in
theorem replay_congr {q : ℕ} (n : ℕ) (hran : s'.mem.jobs.ran q = s.mem.jobs.ran q)
    (hid : ∀ e ∈ s.mem.jobs.ran q,
      s'.mem.GetSessionID e.2.session = s.mem.GetSessionID e.2.session) :
    replay s' q n = replay s q n := by
  rw [replay, replay, hran]
  exact after_congr (roomID q) fun e he => hid e (List.mem_of_mem_take he)

theorem asked_of_ran (h : machine.Reach (fun s a => orderly s a = true) (start recvPool sendPool) s)
    {q : ℕ} {e : T × Jobs.RoomJob S} (hran : e ∈ s.mem.jobs.ran q) : Bound s q e.2 :=
  .inr ⟨e.1, ran_pushed (jobs_inv h) hran⟩

/-- While a thread is at the next job of a room, no body of the room is under way. -/
theorem room_empty (h : machine.Reach (fun s a => orderly s a = true) (start recvPool sendPool) s)
    {t : T} {f : Frame T S} {fs : List (Frame T S)} {q : ℕ} (hf : s.frames t = f :: fs)
    (hroom : f.room q = 1) {w : Frame T S → ℕ} (hw : ∀ g, w g ≤ g.room q) (htop : w f = 0) :
    weight w s.frames = 0 := by
  apply (weight_eq_zero w s.frames).mpr
  intro u g hg
  by_cases hgf : g = f
  · rw [hgf]
    exact htop
  · have hzero := alone h hf hroom (other_of_ne hf hg hgf)
    have hle := hw g
    omega

theorem Replayed.unseen {q : ℕ} (h : Replayed q s)
    (hr : machine.Reach (fun s a => orderly s a = true) (start recvPool sendPool) s)
    (hnext : machine.next s a = some s') (hunseen : Unseen s s') : Replayed q s' := by
  have hreplay (n : ℕ) : replay s' q n = replay s q n := by
    apply replay_congr n (congrFun hunseen.ran q)
    exact fun e he => GetSessionID_of_entered hnext (job_entered hr (asked_of_ran hr he).asked)
  constructor
  · rw [hunseen.lists, hunseen.weights (Frame.unlisted q) ?_, hreplay]
    · exact h.listed
    · intro f hf
      cases f <;> first | rfl | exact nomatch hf
  · intro x hx
    rw [hunseen.ids, hunseen.weights (Frame.unlabelled q) ?_, hreplay]
    · by_cases hzero : enterToken.total x (netPart s) = 0
      · apply h.labelled x
        rw [← hx]
        exact congrArg ChatRoomManager.GetChatRoom (GetSessionID_of_entered hnext hzero).symm
      · -- the session has asked for nothing yet
        have hout : s.mem.mRoomID x = -1 := by
          rcases (members_reach hr).labelled x with hout | ⟨q', u, _, hu⟩
          · exact hout
          · exact absurd (entered_of_ran hr hu) hzero
        rw [hout]
        refine (after_untouched _ _ ?_).symm
        rintro e he rfl
        have hasked := (asked_of_ran hr (List.mem_of_mem_take he)).asked
        exact hzero (job_entered hr hasked)
    · intro f hf
      cases f <;> first | rfl | exact nomatch hf

theorem Replayed.startJob {q q' : ℕ} (h : Replayed q s)
    (hr : machine.Reach (fun s a => orderly s a = true) (start recvPool sendPool) s) {t : T}
    {jobCount : ℕ} {job : T × Jobs.RoomJob S} {jobs : List (T × Jobs.RoomJob S)}
    {fs : List (Frame T S)} (hf : s.frames t = .job (.batch q' jobCount (job :: jobs)) :: fs) :
    Replayed q ⟨{ s.mem with jobs := s.mem.jobs.startJob q' job }, Function.update s.frames t
      ([.changeList q' job.2, .job (.running q' jobCount jobs)] ++ fs)⟩ := by
  have hweight (w : Frame T S → ℕ) (htop : w (.job (.batch q' jobCount (job :: jobs))) = 0)
      (hrun : w (.job (.running q' jobCount jobs)) = 0) :
      weight w (Function.update s.frames t
        ([.changeList q' job.2, .job (.running q' jobCount jobs)] ++ fs)) =
        weight w s.frames + w (.changeList q' job.2) := by
    have hsum := weight_step w hf [.changeList q' job.2, .job (.running q' jobCount jobs)]
    rw [stackWeight_cons, stackWeight_cons, stackWeight_nil, htop, hrun] at hsum
    omega
  by_cases hq : q' = q
  · subst hq
    have hroom : (.job (.batch q' jobCount (job :: jobs)) : Frame T S).room q' = 1 := if_pos rfl
    have hlisted : weight (Frame.unlisted q') s.frames = 0 :=
      room_empty hr hf hroom (fun g => (unlisted_le q' g).1.trans (unlisted_le q' g).2) rfl
    have hlabelled : weight (Frame.unlabelled q') s.frames = 0 :=
      room_empty hr hf hroom (fun g => (unlisted_le q' g).2) rfl
    have hreplay : replay ⟨{ s.mem with jobs := s.mem.jobs.startJob q' job },
        Function.update s.frames t
          ([.changeList q' job.2, .job (.running q' jobCount jobs)] ++ fs)⟩ q' 1 = replay s q' 0 := by
      have hran : (s.mem.jobs.startJob q' job).ran q' = s.mem.jobs.ran q' ++ [job] := by
        simp [Jobs.Mem.startJob]
      simp only [replay, hran, List.length_append, List.length_singleton, Nat.add_sub_cancel,
        List.take_left', Nat.sub_zero, List.take_length]
      rfl
    constructor
    · have hone : (.changeList q' job.2 : Frame T S).unlisted q' = 1 := if_pos rfl
      rw [hweight (Frame.unlisted q') rfl rfl, hlisted, hone, Nat.zero_add, hreplay, ← hlisted]
      exact h.listed
    · intro x hx
      have hone : (.changeList q' job.2 : Frame T S).unlabelled q' = 1 := if_pos rfl
      rw [hweight (Frame.unlabelled q') rfl rfl, hlabelled, hone, Nat.zero_add, hreplay,
        ← hlabelled]
      exact h.labelled x hx
  · have hran : (s.mem.jobs.startJob q' job).ran q = s.mem.jobs.ran q := by
      simp [Jobs.Mem.startJob, Ne.symm hq]
    have hreplay (n : ℕ) : replay ⟨{ s.mem with jobs := s.mem.jobs.startJob q' job },
        Function.update s.frames t
          ([.changeList q' job.2, .job (.running q' jobCount jobs)] ++ fs)⟩ q n = replay s q n :=
      replay_congr n hran fun _ _ => rfl
    constructor
    · have hnone : (.changeList q' job.2 : Frame T S).unlisted q = 0 := if_neg hq
      rw [hweight (Frame.unlisted q) rfl rfl, hnone, Nat.add_zero, hreplay]
      exact h.listed
    · intro x hx
      have hnone : (.changeList q' job.2 : Frame T S).unlabelled q = 0 := if_neg hq
      rw [hweight (Frame.unlabelled q) rfl rfl, hnone, Nat.add_zero, hreplay]
      exact h.labelled x hx

omit [DecidableEq T] [Fintype T] in
/-- The last job of a room, and the room without it. -/
theorem replay_last {q : ℕ} {xs : List (T × Jobs.RoomJob S)} {p : T} {job : Jobs.RoomJob S}
    (hran : s.mem.jobs.ran q = xs ++ [(p, job)]) :
    replay s q 0 = (replay s q 1).execute s.mem.GetSessionID (roomID q) job := by
  have hall : (xs ++ [(p, job)]).take ((xs ++ [(p, job)]).length - 0) = xs ++ [(p, job)] :=
    List.take_length
  have hbut : (xs ++ [(p, job)]).take ((xs ++ [(p, job)]).length - 1) = xs :=
    List.take_left' (by simp)
  rw [replay, replay, hran, hall, hbut]
  exact Jobs.ChatRoom.after_append _ _ xs (p, job)

theorem top_weight (h : machine.Reach ok (start recvPool sendPool) s) {t : T} {f : Frame T S}
    {fs : List (Frame T S)} {q : ℕ} (hf : s.frames t = f :: fs) {w : Frame T S → ℕ}
    (hw : ∀ g, w g ≤ g.room q) (htop : w f = 1) : weight w s.frames = 1 := by
  have hone := (weight_mono hw s.frames).trans (room_le_one h q)
  have hshare := top_le_weight w hf
  omega

theorem Replayed.changeList {q q' : ℕ} (h : Replayed q s)
    (hr : machine.Reach ok (start recvPool sendPool) s) {t : T} {job : Jobs.RoomJob S}
    {fs : List (Frame T S)} (hf : s.frames t = .changeList q' job :: fs) :
    Replayed q ⟨s.mem.changeList q' job,
      Function.update s.frames t ([.setRoomID q' job] ++ fs)⟩ := by
  have hlisted := weight_step (Frame.unlisted q) hf [.setRoomID q' job]
  have hlabelled := weight_step (Frame.unlabelled q) hf [.setRoomID q' job]
  rw [stackWeight_cons, stackWeight_nil] at hlisted hlabelled
  have hsame : (.changeList q' job : Frame T S).unlabelled q =
      (.setRoomID q' job : Frame T S).unlabelled q := rfl
  have hafter : (.setRoomID q' job : Frame T S).unlisted q = 0 := rfl
  have hkept : weight (Frame.unlabelled q)
      (Function.update s.frames t ([.setRoomID q' job] ++ fs)) =
        weight (Frame.unlabelled q) s.frames := by omega
  have hreplay (n : ℕ) : replay ⟨s.mem.changeList q' job,
      Function.update s.frames t ([.setRoomID q' job] ++ fs)⟩ q n = replay s q n := by
    cases job <;> rfl
  constructor
  · rw [hreplay]
    by_cases hq : q' = q
    · subst hq
      have hbefore : (.changeList q' job : Frame T S).unlisted q' = 1 := if_pos rfl
      have hone := top_weight hr hf (fun g => (unlisted_le q' g).1.trans (unlisted_le q' g).2)
        hbefore
      have hzero : weight (Frame.unlisted q')
          (Function.update s.frames t ([.setRoomID q' job] ++ fs)) = 0 := by omega
      have hmem : .changeList q' job ∈ s.frames t := by
        rw [hf]
        exact List.mem_cons_self
      obtain ⟨xs, p, hran⟩ := running_reach hr hmem (if_pos rfl)
      have hold := h.listed
      rw [hone] at hold
      rw [hzero, replay_last hran]
      cases job with
      | enter x =>
        simp only [Memory.changeList, Memory.setEntry, Function.update_self, hold,
          Jobs.ChatRoom.execute, Jobs.ChatRoom.enter]
      | leave x =>
        simp only [Memory.changeList, Memory.setEntry, Function.update_self, hold,
          Jobs.ChatRoom.execute, Jobs.ChatRoom.leave]
    · have hbefore : (.changeList q' job : Frame T S).unlisted q = 0 := if_neg hq
      have hweight : weight (Frame.unlisted q)
          (Function.update s.frames t ([.setRoomID q' job] ++ fs)) =
            weight (Frame.unlisted q) s.frames := by omega
      rw [hweight, ← h.listed]
      cases job <;>
        simp only [Memory.changeList, Memory.setEntry, Function.update_of_ne (Ne.symm hq)]
  · intro x hx
    rw [hreplay, hkept]
    cases job <;> exact h.labelled x hx

theorem Replayed.setRoomID {q q' : ℕ} (h : Replayed q s)
    (hr : machine.Reach (fun s a => orderly s a = true) (start recvPool sendPool) s) {t : T}
    {job : Jobs.RoomJob S} {fs : List (Frame T S)} (hf : s.frames t = .setRoomID q' job :: fs) :
    Replayed q ⟨s.mem.setRoomID q' job, Function.update s.frames t ([] ++ fs)⟩ := by
  have hlisted := weight_step (Frame.unlisted q) hf []
  have hlabelled := weight_step (Frame.unlabelled q) hf []
  rw [stackWeight_nil] at hlisted hlabelled
  have hbefore : (.setRoomID q' job : Frame T S).unlisted q = 0 := rfl
  have hkept : weight (Frame.unlisted q) (Function.update s.frames t ([] ++ fs)) =
      weight (Frame.unlisted q) s.frames := by omega
  have hreplay (n : ℕ) : replay ⟨s.mem.setRoomID q' job,
      Function.update s.frames t ([] ++ fs)⟩ q n = replay s q n := by
    cases job <;> rfl
  have hmem : .setRoomID q' job ∈ s.frames t := by
    rw [hf]
    exact List.mem_cons_self
  obtain ⟨xs, p, hran⟩ := running_reach hr hmem (if_pos rfl)
  constructor
  · rw [hreplay, hkept]
    cases job <;> exact h.listed
  · intro x hx
    have hx' : s.mem.GetChatRoom x = q := by
      cases job <;> exact hx
    rw [hreplay]
    by_cases hq : q' = q
    · subst hq
      have hone : (.setRoomID q' job : Frame T S).unlabelled q' = 1 := if_pos rfl
      have hwas := top_weight hr hf (fun g => (unlisted_le q' g).2) hone
      have hzero : weight (Frame.unlabelled q') (Function.update s.frames t ([] ++ fs)) = 0 := by
        omega
      have hold := h.labelled x hx'
      rw [hwas] at hold
      rw [hzero, replay_last hran]
      cases job with
      | enter y =>
        simp only [Memory.setRoomID, Jobs.ChatRoom.execute, Jobs.ChatRoom.enter,
          Function.update_apply, hold]
      | leave y =>
        simp only [Memory.setRoomID, Jobs.ChatRoom.execute, Jobs.ChatRoom.leave,
          Function.update_apply, hold]
    · have hnone : (.setRoomID q' job : Frame T S).unlabelled q = 0 := if_neg hq
      have hweight : weight (Frame.unlabelled q) (Function.update s.frames t ([] ++ fs)) =
          weight (Frame.unlabelled q) s.frames := by omega
      have hlast : (p, job) ∈ s.mem.jobs.ran q' := by
        rw [hran]
        exact List.mem_append_right xs (List.mem_singleton_self _)
      have hroom := (placed_reach hr job q' (asked_of_ran hr hlast)).1
      -- the session of the job has another room than `q`
      have hother : x ≠ job.session := by
        rintro rfl
        exact hq (hroom.trans hx')
      rw [hweight, ← h.labelled x hx']
      cases job <;> exact Function.update_of_ne hother _ _

theorem Replayed.next {q : ℕ} (h : Replayed q s)
    (hr : machine.Reach (fun s a => orderly s a = true) (start recvPool sendPool) s)
    (hnext : machine.next s a = some s') : Replayed q s' := by
  rcases (next_move hnext).rooms with hunseen | ⟨t, q', jobCount, job, jobs, fs, hf, rfl⟩ |
    ⟨t, q', job, fs, hf, rfl⟩ | ⟨t, q', job, fs, hf, rfl⟩
  · exact h.unseen hr hnext hunseen
  · exact h.startJob hr hf
  · exact h.changeList hr hf
  · exact h.setRoomID hr hf

theorem replayed_reach
    (h : machine.Reach (fun s a => orderly s a = true) (start recvPool sendPool) s) (q : ℕ) :
    Replayed q s := by
  apply h.invariant (Replayed q)
  · have hempty (n : ℕ) : replay (start recvPool sendPool : RoomsConf T S) q n = .init := by
      simp only [replay, Rooms.start, Jobs.Mem.init, List.take_nil]
      rfl
    constructor
    · rw [hempty]
      rfl
    · intro x _
      rw [hempty]
      rfl
  · exact fun _ _ _ hr hs _ hnext => hs.next hr hnext

/-- What is queued in a room without counted jobs has run. -/
structure Settled (q : ℕ) (s : RoomsConf T S) : Prop where
  ran : s.mem.jobs.taken q ++ s.mem.jobs.mJobQueue q = s.mem.jobs.ran q
  listed : s.mem.mSessionList q =
    (Jobs.ChatRoom.after s.mem.GetSessionID (roomID q) (s.mem.jobs.ran q)).mSessionList
  labelled : ∀ x, s.mem.GetChatRoom x = q → s.mem.mRoomID x =
    (Jobs.ChatRoom.after s.mem.GetSessionID (roomID q) (s.mem.jobs.ran q)).sessionRoomID x

theorem settled (h : machine.Reach (fun s a => orderly s a = true) (start recvPool sendPool) s)
    {q : ℕ} (hcount : s.mem.jobs.mJobCount q = 0) : Settled q s := by
  have hinv := jobs_inv h
  have hreplayed := replayed_reach h q
  have hroom : weight (Frame.room q) s.frames = 0 := by
    have htoken := hinv.token q
    have hle := room_le_token h q
    have hnone : (jobPart s).mem.mJobCount q = 0 := hcount
    rw [Jobs.tokens, hnone, Jobs.present, if_pos rfl] at htoken
    omega
  have hnone {w : Frame T S → ℕ} (hw : ∀ g, w g ≤ g.room q) : weight w s.frames = 0 :=
    Nat.le_zero.mp (hroom ▸ weight_mono hw s.frames)
  have hall : replay s q 0 =
      Jobs.ChatRoom.after s.mem.GetSessionID (roomID q) (s.mem.jobs.ran q) := by
    rw [replay, Nat.sub_zero, List.take_length]
  constructor
  · have hempty : s.mem.jobs.mJobQueue q = [] := by
      apply List.length_eq_zero_iff.mp
      have hload := hinv.count q
      have hzero : (jobPart s).mem.mJobCount q = 0 := hcount
      have hlength : (s.mem.jobs.mJobQueue q).length = ((jobPart s).mem.mJobQueue q).length := rfl
      omega
    rw [hempty, List.append_nil]
    exact hinv.free q (.inr hcount)
  · rw [hreplayed.listed, hnone fun g => (unlisted_le q g).1.trans (unlisted_le q g).2, hall]
  · intro x hx
    rw [hreplayed.labelled x hx, hnone fun g => (unlisted_le q g).2, hall]

/-- A queued job is in the room of its session. -/
theorem room_of_queued
    (h : machine.Reach (fun s a => orderly s a = true) (start recvPool sendPool) s)
    {job : Jobs.RoomJob S} (hqueued : Queued s job) : ∃ u, (u, job) ∈
      s.mem.jobs.taken (s.mem.GetChatRoom job.session) ++
        s.mem.jobs.mJobQueue (s.mem.GetChatRoom job.session) ∧
      s.mem.GetChatRoom job.session < ChatRoomManager.construct.mChatRoomList.length := by
  obtain ⟨q, u, hu⟩ := hqueued
  have hplaced := placed_reach h job q (.inr ⟨u, queued_pushed (jobs_inv h) hu⟩)
  rw [← hplaced.1]
  exact ⟨u, hu, hplaced.2⟩

/-- Once the jobs of its room have run, a connected session is in the room and a disconnected one
in none. -/
structure Follows (s : RoomsConf T S) : Prop where
  present : ∀ x, .connectedReturned ∈ (s.mem.net.session x).events →
    .disconnectedCalled ∉ (s.mem.net.session x).events →
    s.mem.jobs.mJobCount (s.mem.GetChatRoom x) = 0 →
    s.mem.mSessionList (s.mem.GetChatRoom x) (s.mem.GetSessionID x) = some x ∧
      s.mem.mRoomID x = (s.mem.GetSessionID x).tmod Network.maxChatroomCount
  absent : ∀ x, .disconnectReturned ∈ (s.mem.net.session x).events →
    s.mem.jobs.mJobCount (s.mem.GetChatRoom x) = 0 →
    (∀ q id, s.mem.mSessionList q id ≠ some x) ∧ s.mem.mRoomID x = -1

theorem Follows.of_present
    (h : machine.Reach (fun s a => orderly s a = true) (start recvPool sendPool) s) {x : S}
    (hreturned : .connectedReturned ∈ (s.mem.net.session x).events)
    (hcalled : .disconnectedCalled ∉ (s.mem.net.session x).events)
    (hcount : s.mem.jobs.mJobCount (s.mem.GetChatRoom x) = 0) :
    s.mem.mSessionList (s.mem.GetChatRoom x) (s.mem.GetSessionID x) = some x ∧
      s.mem.mRoomID x = (s.mem.GetSessionID x).tmod Network.maxChatroomCount := by
  have hsettled := settled h hcount
  obtain ⟨u, hu, hroom⟩ := room_of_queued h ((delivered_reach h).connected x hreturned)
  have hran : (u, .enter x) ∈ s.mem.jobs.ran (s.mem.GetChatRoom x) := hsettled.ran ▸ hu
  obtain ⟨before, later, heq⟩ := List.append_of_mem hran
  have hlater {e : T × Jobs.RoomJob S} (he : e ∈ later) :
      e ∈ s.mem.jobs.ran (s.mem.GetChatRoom x) := by
    rw [heq]
    exact List.mem_append_right _ (List.mem_cons_of_mem _ he)
  have hleave : ∀ v, (v, .leave x) ∉ later := fun v hv =>
    hcalled (called_of_asked h x (asked_of_ran h (hlater hv)).asked)
  have hnumbers := Network.numbers_reach (fun _ _ hok => hok) (orderly_net h).2
  have hdistinct : ∀ e ∈ later, s.mem.GetSessionID e.2.session = s.mem.GetSessionID x →
      e.2.session = x := fun e _ hid =>
    (hnumbers.distinct x e.2.session hid.symm (hnumbers.returned x hreturned)).symm
  have hafter := after_enter s.mem.GetSessionID (roomID (s.mem.GetChatRoom x)) u x before later
    hleave hdistinct
  rw [← heq] at hafter
  rw [hsettled.listed, hsettled.labelled x rfl]
  exact ⟨hafter.1, hafter.2.trans (room_of_number hroom).2⟩

theorem Follows.of_absent
    (h : machine.Reach (fun s a => orderly s a = true) (start recvPool sendPool) s) {x : S}
    (hreturned : .disconnectReturned ∈ (s.mem.net.session x).events)
    (hcount : s.mem.jobs.mJobCount (s.mem.GetChatRoom x) = 0) :
    (∀ q id, s.mem.mSessionList q id ≠ some x) ∧ s.mem.mRoomID x = -1 := by
  have hsettled := settled h hcount
  obtain ⟨u, hu, _⟩ := room_of_queued h ((delivered_reach h).disconnected x hreturned)
  have hran : (u, .leave x) ∈ s.mem.jobs.ran (s.mem.GetChatRoom x) := hsettled.ran ▸ hu
  obtain ⟨before, later, heq⟩ := List.append_of_mem hran
  have htaken : s.mem.jobs.taken (s.mem.GetChatRoom x) = before ++ (u, .leave x) :: later :=
    ((jobs_inv h).free _ (.inr hcount)).trans heq
  have hlater : ∀ v, (v, .enter x) ∉ later := fun v hv =>
    (roomInv_reach h (s.mem.GetChatRoom x)).past before u x later htaken v
      (List.mem_append_left _ hv)
  have hafter := Jobs.ChatRoom.after_leave s.mem.GetSessionID (roomID (s.mem.GetChatRoom x)) u x
    before later hlater
  rw [← heq] at hafter
  constructor
  · intro q id hx
    -- only the room of its number can have it
    obtain ⟨_, v, hv⟩ := (members_reach h).member q id x hx
    obtain rfl := (placed_reach h (.enter x) q (asked_of_ran h hv)).1
    apply hafter.1
    refine ⟨id, ?_⟩
    rw [← hsettled.listed]
    exact hx
  · rw [hsettled.labelled x rfl]
    exact hafter.2

/-- In an orderly run the rooms follow the connections. -/
theorem rooms_follow
    (h : machine.Reach (fun s a => orderly s a = true) (start recvPool sendPool) s) : Follows s :=
  ⟨fun _ hreturned hcalled hcount => Follows.of_present h hreturned hcalled hcount,
    fun _ hreturned hcount => Follows.of_absent h hreturned hcount⟩

/-- Another thread disconnects the client and runs the `Leave`. -/
def disconnectOne : List (Action Bool (Choice Bool Unit)) :=
  [.enter true (.net (.callDisconnect ())), .step true (.net .go), .step true (.net .go),
    .step true (.net (.result true)), .enter true (.net (.disconnected ())), .step true (.net .go),
    .step true (.net .go), .step true (.net .go), .step true .go, .step true (.job .go),
    .step true (.job .go), .step true (.job .go), .step true (.job .go),
    .step true (.job (.take [true])), .step true (.job .go), .step true .go, .step true .go,
    .step true (.job .go), .step true (.job .go), .step true (.net .go), .step true (.net .go)]

theorem rooms_follow_oneClient :
    (∃ s : RoomsConf Bool Unit, .connectedReturned ∈ (s.mem.net.session ()).events ∧
      s.mem.mSessionList 1 1 = some () ∧ Follows s) ∧
    ∃ s : RoomsConf Bool Unit, .disconnectReturned ∈ (s.mem.net.session ()).events ∧
      s.mem.mSessionList 1 1 = none ∧ Follows s := by
  constructor
  · have hr := Machine.reach_finalChecked machine orderly (start .empty .empty) connectOne
      (by decide)
    exact ⟨_, by decide, by decide, rooms_follow hr⟩
  · have hr := Machine.reach_finalChecked machine orderly (start .empty .empty)
      (connectOne ++ disconnectOne) (by decide)
    exact ⟨_, by decide, by decide, rooms_follow hr⟩

end ServerCore.App.Rooms
