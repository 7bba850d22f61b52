import ServerCore.App.RoomSteps
import ServerCore.Network.Admission

namespace ServerCore.App.Rooms

open Framework ConcurrentQueue
open Network (SessionFrame ChatRoomManager enterToken)

variable {T S : Type}

section Run

variable [DecidableEq T] [DecidableEq S] [Fintype T] {s s' : RoomsConf T S}
  {ok : RoomsConf T S → Action T (Choice T S) → Prop}
  {recvPool sendPool : Network.RegisteredBufferPool T}

/-- A condition on the steps of the sessions. -/
def onNet (p : Network.SystemConf T S → Action T (Network.Choice T S) → Bool) (s : RoomsConf T S) :
    Action T (Choice T S) → Bool
  | .step t (.net c) => p (netPart s) (.step t c)
  | _ => true

theorem shape_reach (h : machine.Reach ok (start recvPool sendPool) s) : ∀ t, Shape (s.frames t) :=
  h.invariant (fun s => ∀ t, Shape (s.frames t)) (fun _ => .job [] [])
    fun _ _ _ _ hs _ hnext => (next_move hnext).shape hs

/-- The sessions run as they do without the rooms. -/
theorem net_reach (p : Network.SystemConf T S → Action T (Network.Choice T S) → Bool)
    (hquiet : ∀ s a, (∀ t c, a ≠ .step t c) → p s a = true)
    (hok : ∀ s a, ok s a → onNet p s a = true) (h : machine.Reach ok (start recvPool sendPool) s) :
    Network.machine.Reach (fun s a => p s a = true) (Network.start recvPool sendPool)
      (netPart s) := by
  apply h.invariant fun s => Network.machine.Reach (fun s a => p s a = true)
    (Network.start recvPool sendPool) (netPart s)
  · exact .start
  · intro s a s' _ hs hallowed hnext
    rcases (next_move hnext).net with heq | ⟨b, hb, hcases⟩
    · rw [heq]
      exact hs
    · refine hs.next ?_ hb
      rcases hcases with ⟨t, c, rfl, rfl⟩ | ⟨t, c, rfl⟩ | ⟨c, rfl⟩
      · exact hok _ _ hallowed
      · exact hquiet _ _ fun _ _ hb => nomatch hb
      · exact hquiet _ _ fun _ _ hb => nomatch hb

theorem jobs_inv (h : machine.Reach ok (start recvPool sendPool) s) : Jobs.Inv (jobPart s) := by
  apply h.invariant fun s => Jobs.Inv (jobPart s)
  · exact .start
  · intro s a s' hr hs _ hnext
    rcases (next_move hnext).jobs (shape_reach hr) with heq | ⟨b, hb, _⟩
    · rw [heq]
      exact hs
    · exact hs.next hb

/-- The sessions run as they do without the rooms, whatever the conditions on the steps. -/
theorem net_reach_true (h : machine.Reach ok (start recvPool sendPool) s) :
    Network.machine.Reach (fun _ _ => true = true) (Network.start recvPool sendPool)
      (netPart s) := by
  refine net_reach (fun _ _ => true) (fun _ _ _ => rfl) ?_ h
  intro s a _
  cases a with
  | step t c => cases c <;> rfl
  | _ => rfl

/-- A session whose `Enter` is asked for was let in, and is not let in again. -/
theorem entered_of_asked (h : machine.Reach ok (start recvPool sendPool) s) (x : S)
    (hasked : Asked s (.enter x)) : enterToken.total x (netPart s) = 0 := by
  revert hasked
  apply h.invariant fun s => Asked s (.enter x) → enterToken.total x (netPart s) = 0
  · rintro (⟨t, f, hf, _⟩ | ⟨q, u, hu⟩)
    · exact absurd hf List.not_mem_nil
    · exact absurd hu List.not_mem_nil
  · intro s a s' hr hs _ hnext hasked
    have hmove := next_move hnext
    rcases hmove.asked hasked with hasked | ⟨t, c, f, fs, rfl, hf, hc⟩
    · rcases hmove.net with heq | ⟨b, hb, _⟩
      · rw [heq]
        exact hs hasked
      · have hle := Network.enterToken_decreases.next x hb
        rw [hs hasked] at hle
        exact Nat.le_zero.mp hle
    · obtain ⟨y, f⟩ := f
      have htop : (netPart s).frames t = (y, f) :: fs.filterMap Frame.toNet := by
        simp only [Conf.part, hf, List.filterMap_cons, Frame.toNet]
      rcases callbacks_cases (y, f) with he | ⟨hf', he⟩ | ⟨_, he⟩ <;> rw [he] at hc
      · exact absurd hc List.not_mem_nil
      · cases List.mem_singleton.mp hc
        obtain rfl : f = .connect .onConnected := hf'
        exact Network.entered (net_reach_true hr) htop hmove.net_step
      · cases List.mem_singleton.mp hc

/-- What has been let in keeps its number. -/
theorem GetSessionID_of_entered {a : Action T (Choice T S)} {x : S}
    (hnext : machine.next s a = some s') (hzero : enterToken.total x (netPart s) = 0) :
    s'.mem.GetSessionID x = s.mem.GetSessionID x := by
  rcases (next_move hnext).net with heq | ⟨b, hb, _⟩
  · have hmem : s'.mem.net = s.mem.net := congrArg Conf.mem heq
    simp only [Memory.GetSessionID, hmem]
  · exact Network.mSessionID_of_entered hzero hb

/-- A job that is asked for is bound for the room of its session's number. -/
def Placed (s : RoomsConf T S) (job : Jobs.RoomJob S) : Prop :=
  ∀ q, Bound s q job → q = s.mem.GetChatRoom job.session ∧
    q < ChatRoomManager.construct.mChatRoomList.length

/-- A job stays bound for its room when its session keeps its number. -/
theorem Placed.next {a : Action T (Choice T S)} {job : Jobs.RoomJob S} (h : Placed s job)
    (hnext : machine.next s a = some s')
    (hid : Asked s job → s'.mem.GetSessionID job.session = s.mem.GetSessionID job.session) :
    Placed s' job := by
  intro q hbound
  rcases (next_move hnext).bound hbound with hbound | ⟨hq, hroom, hnet⟩
  · have hsame : s'.mem.GetChatRoom job.session = s.mem.GetChatRoom job.session :=
      congrArg ChatRoomManager.GetChatRoom (hid hbound.asked)
    rw [hsame]
    exact h q hbound
  · have hsame : s'.mem.GetChatRoom job.session = s.mem.GetChatRoom job.session := by
      simp only [Memory.GetChatRoom, Memory.GetSessionID, hnet]
    rw [hsame]
    exact ⟨hq, hroom⟩

omit [DecidableEq T] [DecidableEq S] [Fintype T] in
theorem not_bound_start (recvPool sendPool : Network.RegisteredBufferPool T) (q : ℕ)
    (job : Jobs.RoomJob S) : ¬Bound (start recvPool sendPool) q job := by
  rintro (⟨t, pushOnly, hf⟩ | ⟨u, hu⟩)
  · exact absurd hf List.not_mem_nil
  · exact absurd hu List.not_mem_nil

theorem enter_placed (h : machine.Reach ok (start recvPool sendPool) s) (x : S) :
    Placed s (.enter x) := by
  apply h.invariant fun s => Placed s (.enter x)
  · exact fun q hbound => absurd hbound (not_bound_start _ _ q _)
  · intro s a s' hr hs _ hnext
    exact hs.next hnext fun hasked => GetSessionID_of_entered hnext (entered_of_asked hr x hasked)

theorem room_le_token (h : machine.Reach ok (start recvPool sendPool) s) (q : ℕ) :
    weight (Frame.room q) s.frames ≤ weight (Jobs.Frame.token q) (jobPart s).frames :=
  Finset.sum_le_sum fun t _ => (shape_reach h t).room_le q

/-- One thread at a time is inside a room. -/
theorem room_le_one (h : machine.Reach ok (start recvPool sendPool) s) (q : ℕ) :
    weight (Frame.room q) s.frames ≤ 1 := by
  have hstack := room_le_token h q
  have htokens := (jobs_inv h).tokens_le q
  omega

theorem alone {t u : T} {f g : Frame T S} {fs : List (Frame T S)} {q : ℕ}
    (h : machine.Reach ok (start recvPool sendPool) s) (hf : s.frames t = f :: fs)
    (hroom : f.room q = 1) (hg : Other s.frames t fs u g) : g.room q = 0 := by
  have hle := room_le_one h q
  have hshare := hg.weight hf (Frame.room q)
  omega

/-- The job whose body is under way is the last one that was started. -/
theorem running_reach (h : machine.Reach ok (start recvPool sendPool) s) {q : ℕ} {t : T}
    {f : Frame T S} {job : Jobs.RoomJob S} (hf : f ∈ s.frames t) (hbody : f.body q = some job) :
    ∃ xs p, s.mem.jobs.ran q = xs ++ [(p, job)] := by
  revert t f job
  apply h.invariant fun s => ∀ t f job, f ∈ s.frames t → f.body q = some job →
    ∃ xs p, s.mem.jobs.ran q = xs ++ [(p, job)]
  · exact fun t f job hf => absurd hf List.not_mem_nil
  · intro s a s' hr hs _ hnext u g job hg hbody
    obtain ⟨hroom, hin⟩ := Frame.room_of_body hbody
    rcases (next_move hnext).rooms with hunseen | ⟨t, q', jobCount, job', jobs, fs, hf, rfl⟩ |
      ⟨t, q', job', fs, hf, rfl⟩ | ⟨t, q', job', fs, hf, rfl⟩
    · rw [hunseen.ran]
      exact hs u g job (hunseen.frames u g hg hin) hbody
    · show ∃ xs p, (s.mem.jobs.startJob q' job').ran q = xs ++ [(p, job)]
      have hbatch (hq : q' = q) :
          (.job (.batch q' jobCount (job' :: jobs)) : Frame T S).room q = 1 := if_pos hq
      by_cases hq : q' = q
      · rcases mem_update _ hg with ⟨_, hg⟩ | hg
        · rcases List.mem_pair.mp hg with rfl | rfl
          · obtain rfl : job'.2 = job := by simpa [Frame.body, hq] using hbody
            refine ⟨s.mem.jobs.ran q, job'.1, ?_⟩
            simp [Jobs.Mem.startJob, hq]
          · cases hbody
        · have hzero := alone hr hf (hbatch hq) hg
          omega
      · have hran : (s.mem.jobs.startJob q' job').ran q = s.mem.jobs.ran q := by
          simp [Jobs.Mem.startJob, Ne.symm hq]
        rw [hran]
        rcases mem_update _ hg with ⟨_, hg⟩ | hg
        · rcases List.mem_pair.mp hg with rfl | rfl
          · simp [Frame.body, hq] at hbody
          · cases hbody
        · exact hs u g job (hg.mem hf) hbody
    · have hran : (s.mem.changeList q' job').jobs = s.mem.jobs := by cases job' <;> rfl
      rw [hran]
      rcases mem_update _ hg with ⟨_, hg⟩ | hg
      · rw [List.mem_singleton.mp hg] at hbody
        exact hs t (.changeList q' job') job (by rw [hf]; exact List.mem_cons_self) hbody
      · exact hs u g job (hg.mem hf) hbody
    · have hran : (s.mem.setRoomID q' job').jobs = s.mem.jobs := by cases job' <;> rfl
      rw [hran]
      rcases mem_update _ hg with ⟨_, hg⟩ | hg
      · exact absurd hg List.not_mem_nil
      · exact hs u g job (hg.mem hf) hbody

omit [DecidableEq S] in
theorem ran_pushed {m : Jobs.RoomConf T ℕ S} (h : Jobs.Inv m) {q : ℕ} {u : T}
    {job : Jobs.RoomJob S} (hran : (u, job) ∈ m.mem.ran q) : (u, job) ∈ m.mem.pushed q := by
  obtain ⟨left, htaken⟩ := h.taken_eq q
  have hmem : job ∈ ofProducer u (m.mem.ran q) := mem_ofProducer.mpr hran
  rw [← mem_ofProducer, h.order q u, htaken, ofProducer_append]
  exact List.mem_append_left _ (List.mem_append_left _ (List.mem_append_left _ hmem))

theorem entered_of_ran (h : machine.Reach ok (start recvPool sendPool) s) {q : ℕ} {u : T} {x : S}
    (hran : (u, .enter x) ∈ s.mem.jobs.ran q) : enterToken.total x (netPart s) = 0 :=
  entered_of_asked h x (.inr ⟨q, u, ran_pushed (jobs_inv h) hran⟩)

/-- What stands in the rooms was put there by the `Enter` of its session. -/
structure Members (s : RoomsConf T S) : Prop where
  member : ∀ q id x, s.mem.mSessionList q id = some x →
    id = s.mem.GetSessionID x ∧ ∃ u, (u, .enter x) ∈ s.mem.jobs.ran q
  labelled : ∀ x, s.mem.mRoomID x = -1 ∨
    ∃ q u, s.mem.mRoomID x = roomID q ∧ (u, .enter x) ∈ s.mem.jobs.ran q

theorem Members.next {a : Action T (Choice T S)} (h : Members s)
    (hr : machine.Reach ok (start recvPool sendPool) s) (hnext : machine.next s a = some s') :
    Members s' := by
  rcases (next_move hnext).rooms with hunseen | ⟨t, q', jobCount, job, jobs, fs, hf, rfl⟩ |
    ⟨t, q', job, fs, hf, rfl⟩ | ⟨t, q', job, fs, hf, rfl⟩
  · constructor
    · intro q id x hx
      rw [hunseen.lists] at hx
      obtain ⟨hid, u, hu⟩ := h.member q id x hx
      rw [hunseen.ran, GetSessionID_of_entered hnext (entered_of_ran hr hu)]
      exact ⟨hid, u, hu⟩
    · rw [hunseen.ids, hunseen.ran]
      exact h.labelled
  · have hgrows (q : ℕ) : s.mem.jobs.ran q ⊆ (s.mem.jobs.startJob q' job).ran q := by
      by_cases hq : q = q'
      · subst hq
        simp [Jobs.Mem.startJob]
      · simp [Jobs.Mem.startJob, hq]
    constructor
    · intro q id x hx
      obtain ⟨hid, u, hu⟩ := h.member q id x hx
      exact ⟨hid, u, hgrows q hu⟩
    · intro x
      rcases h.labelled x with hout | ⟨q, u, hroom, hu⟩
      · exact .inl hout
      · exact .inr ⟨q, u, hroom, hgrows q hu⟩
  · have htop : .changeList q' job ∈ s.frames t := by
      rw [hf]
      exact List.mem_cons_self
    obtain ⟨xs, p, hlast⟩ := running_reach hr htop (if_pos rfl)
    constructor
    · intro q id x hx
      cases job with
      | enter y =>
        simp only [Memory.changeList, Memory.setEntry_apply] at hx
        split_ifs at hx with hat
        · obtain rfl := Option.some.inj hx
          refine ⟨hat.2, p, ?_⟩
          rw [hat.1]
          show (p, .enter y) ∈ s.mem.jobs.ran q'
          rw [hlast]
          exact List.mem_append_right xs (List.mem_singleton_self _)
        · exact h.member q id x hx
      | leave y =>
        simp only [Memory.changeList, Memory.setEntry_apply] at hx
        split_ifs at hx with hat
        exact h.member q id x hx
    · cases job <;> exact h.labelled
  · have htop : .setRoomID q' job ∈ s.frames t := by
      rw [hf]
      exact List.mem_cons_self
    obtain ⟨xs, p, hlast⟩ := running_reach hr htop (if_pos rfl)
    constructor
    · cases job <;> exact h.member
    · intro x
      cases job with
      | enter y =>
        by_cases hx : x = y
        · subst hx
          refine .inr ⟨q', p, by simp [Memory.setRoomID], ?_⟩
          show (p, .enter x) ∈ s.mem.jobs.ran q'
          rw [hlast]
          exact List.mem_append_right xs (List.mem_singleton_self _)
        · simpa [Memory.setRoomID, hx] using h.labelled x
      | leave y =>
        by_cases hx : x = y
        · exact .inl (by simp [Memory.setRoomID, hx])
        · simpa [Memory.setRoomID, hx] using h.labelled x

theorem members_reach (h : machine.Reach ok (start recvPool sendPool) s) : Members s := by
  apply h.invariant Members
  · exact ⟨fun _ _ _ hx => absurd hx.symm (Option.some_ne_none _), fun _ => .inl rfl⟩
  · exact fun s a s' hr hs _ hnext => hs.next hr hnext

omit [DecidableEq T] [DecidableEq S] [Fintype T] in
/-- The room of a number, as the source computes it. -/
theorem room_of_number {id : Int} (h : ChatRoomManager.GetChatRoom id <
    ChatRoomManager.construct.mChatRoomList.length) :
    (ChatRoomManager.GetChatRoom id : Int) = id.tmod Network.maxChatroomCount ∧
      roomID (ChatRoomManager.GetChatRoom id) = id.tmod Network.maxChatroomCount := by
  have hpos : (0 : Int) < Network.maxChatroomCount := by decide
  have hlt := Int.tmod_lt_of_pos id hpos
  have hgt := Int.lt_tmod_of_pos id hpos
  have hroom : ∀ q < 6, roomID q = (q : Int) := by decide
  rw [ChatRoomManager.construct_rooms] at h
  have hsix : ChatRoomManager.GetChatRoom id < 6 := h
  rw [hroom _ hsix, and_self]
  simp only [Network.ChatRoomManager.GetChatRoom, Network.toSize, Network.maxChatroomCount]
    at hlt hgt hsix ⊢
  omega

/-- A session is listed in the room of its number only, under its number, and `GetRoomID` names
that room or none. -/
structure Isolated (s : RoomsConf T S) : Prop where
  member : ∀ (q : ℕ) id x, s.mem.mSessionList q id = some x →
    id = s.mem.GetSessionID x ∧ (q : Int) = (s.mem.GetSessionID x).tmod Network.maxChatroomCount
  roomID : ∀ x, s.mem.mRoomID x = -1 ∨
    s.mem.mRoomID x = (s.mem.GetSessionID x).tmod Network.maxChatroomCount

/-- Over every interleaving of any number of threads that connect, serve, disconnect and destroy
sessions and run the jobs of the rooms, no session gets into a room but its own. -/
theorem rooms_isolated (h : machine.Reach ok (start recvPool sendPool) s) : Isolated s := by
  have hmembers := members_reach h
  have hroom {q : ℕ} {u : T} {x : S} (hu : (u, .enter x) ∈ s.mem.jobs.ran q) :
      q = s.mem.GetChatRoom x ∧ q < ChatRoomManager.construct.mChatRoomList.length :=
    enter_placed h x q (.inr ⟨u, ran_pushed (jobs_inv h) hu⟩)
  constructor
  · intro q id x hx
    obtain ⟨hid, u, hu⟩ := hmembers.member q id x hx
    obtain ⟨rfl, hlt⟩ := hroom hu
    exact ⟨hid, (room_of_number hlt).1⟩
  · intro x
    rcases hmembers.labelled x with hout | ⟨q, u, hlabel, hu⟩
    · exact .inl hout
    · obtain ⟨rfl, hlt⟩ := hroom hu
      exact .inr (hlabel.trans (room_of_number hlt).2)

end Run

/-- A client connects, and its thread runs the `Enter` that the callback pushes. -/
def connectOne : List (Action Bool (Choice Bool Unit)) :=
  [.env (.net (.acceptEx ())), .enter false (.net (.accepted ())), .step false (.net .go),
    .step false (.net .go), .step false (.net .go), .step false (.net .go),
    .step false (.net (.result true)), .step false (.net .go), .step false (.net .go),
    .step false .go, .step false (.job .go), .step false (.job .go), .step false (.job .go),
    .step false (.job .go), .step false (.job (.take [false])), .step false (.job .go),
    .step false .go, .step false .go, .step false (.job .go), .step false (.job .go),
    .step false (.net .go), .step false (.net .go), .step false (.net .go)]

theorem rooms_isolated_connectOne :
    ∃ s : RoomsConf Bool Unit, s.mem.mSessionList 1 1 = some () ∧ Isolated s := by
  have hr := Machine.reach_finalChecked machine (fun _ _ => true) (start .empty .empty) connectOne
    (by decide)
  exact ⟨_, by decide, rooms_isolated hr⟩

end ServerCore.App.Rooms
