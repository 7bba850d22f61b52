import ServerCore.Framework.Part
import ServerCore.Jobs.ChatRoom
import ServerCore.Network.KeyDispatch

namespace ServerCore.Jobs

def RoomJob.session {S : Type} : RoomJob S → S
  | .enter session | .leave session => session

end ServerCore.Jobs

namespace ServerCore.App.Rooms

open Framework
open Network (ChatRoomManager SessionFrame)

/-- The sessions, the job queues that the chat rooms are, `mSessionList` of each room and `mRoomID`
of each session. A room is known by its place in `mChatRoomList`. -/
structure Memory (T S : Type) where
  net : Network.System T S
  jobs : Jobs.Mem T ℕ (Jobs.RoomJob S)
  mSessionList : ℕ → Int → Option S
  mRoomID : S → Int

inductive Frame (T S : Type) where
  | net (f : SessionFrame T S)
  /-- `ChatRoomManager::GetChatRoom(GetSessionID())->DoAsync` is next. -/
  | doAsync (job : Jobs.RoomJob S)
  | job (f : Jobs.Frame T ℕ (Jobs.RoomJob S))
  /-- Inside `Enter` or `Leave`: the change of `mSessionList` is next. -/
  | changeList (q : ℕ) (job : Jobs.RoomJob S)
  /-- `SetRoomID` is next. -/
  | setRoomID (q : ℕ) (job : Jobs.RoomJob S)
  deriving DecidableEq

inductive Choice (T S : Type) where
  | go
  | net (c : Network.Choice T S)
  | job (c : Jobs.Choice T ℕ (Jobs.RoomJob S))
  deriving DecidableEq

namespace Frame

variable {T S : Type}

def toNet : Frame T S → Option (SessionFrame T S)
  | .net f => some f
  | _ => none

def toJob : Frame T S → Option (Jobs.Frame T ℕ (Jobs.RoomJob S))
  | .job f => some f
  | _ => none

/-- The jobs that the frame keeps alive. -/
def jobs : Frame T S → List (Jobs.RoomJob S)
  | .doAsync j | .changeList _ j | .setRoomID _ j => [j]
  | .job (.push _ j _) | .job (.enqueue _ j _ _) => [j]
  | .job (.batch _ _ js) | .job (.running _ _ js) => js.map Prod.snd
  | _ => []

end Frame

abbrev RoomsConf (T S : Type) : Type := Conf T (Memory T S) (Frame T S)

/-- `mRoomID` of the room at a place of `mChatRoomList`. -/
def roomID (q : ℕ) : Int := (ChatRoomManager.construct.mChatRoomList[q]?).getD 0

namespace Memory

variable {T S : Type}

def GetSessionID (s : Memory T S) (session : S) : Int := (s.net.session session).mSessionID

def GetChatRoom (s : Memory T S) (session : S) : ℕ :=
  ChatRoomManager.GetChatRoom (s.GetSessionID session)

def setEntry (s : Memory T S) (q : ℕ) (id : Int) (entry : Option S) : Memory T S :=
  { s with mSessionList :=
      Function.update s.mSessionList q (Function.update (s.mSessionList q) id entry) }

theorem setEntry_apply (s : Memory T S) (q q' : ℕ) (id id' : Int) (entry : Option S) :
    (s.setEntry q' id' entry).mSessionList q id =
      if q = q' ∧ id = id' then entry else s.mSessionList q id := by
  by_cases hq : q = q'
  · subst hq
    by_cases hid : id = id' <;> simp [setEntry, hid]
  · simp [setEntry, hq]

variable [DecidableEq S]

/-- `insert_or_assign` of `Enter`, `erase` of `Leave`. -/
def changeList (s : Memory T S) (q : ℕ) : Jobs.RoomJob S → Memory T S
  | .enter session => s.setEntry q (s.GetSessionID session) (some session)
  | .leave session => s.setEntry q (s.GetSessionID session) none

def setRoomID (s : Memory T S) (q : ℕ) : Jobs.RoomJob S → Memory T S
  | .enter session => { s with mRoomID := Function.update s.mRoomID session (roomID q) }
  | .leave session => { s with mRoomID := Function.update s.mRoomID session (-1) }

end Memory

section Steps

variable {T S : Type}

/-- `ClientSession::OnConnected` and `OnDisconnected` after `ClientSessionManager`. -/
def callbacks : SessionFrame T S → List (Frame T S)
  | (session, .connect .onConnected) => [.doAsync (.enter session)]
  | (session, .disconnect .onDisconnected) => [.doAsync (.leave session)]
  | _ => []

/-- The body of the next job of a batch. -/
def bodies : Jobs.Frame T ℕ (Jobs.RoomJob S) → List (Frame T S)
  | .batch q _ (job :: _) => [.changeList q job.2]
  | _ => []

variable [DecidableEq T] [DecidableEq S]

/-- One step of a thread. The body of a job pushes nothing. -/
def step (s : Memory T S) (t : T) :
    Frame T S → Choice T S → Option (Memory T S × List (Frame T S))
  | .net f, .net c => (Network.step s.net t f c).map fun r =>
      ({ s with net := r.1 }, callbacks f ++ r.2.map .net)
  | .doAsync job, .go =>
      if s.GetChatRoom job.session < ChatRoomManager.construct.mChatRoomList.length then
        some (s, [.job (.push (s.GetChatRoom job.session) job false)])
      else none
  | .job _, .job (.callPush ..) => none
  | .job f, .job c => (Jobs.step s.jobs t f c).map fun r =>
      ({ s with jobs := r.1 }, bodies f ++ r.2.map .job)
  | .changeList q job, .go => some (s.changeList q job, [.setRoomID q job])
  | .setRoomID q job, .go => some (s.setRoomID q job, [])
  | _, _ => none

variable [Fintype T]

/-- A room or a job holds a reference to the session. -/
def Referenced (s : Memory T S) (frames : T → List (Frame T S)) (session : S) : Prop :=
  (∃ q < ChatRoomManager.construct.mChatRoomList.length,
    s.mSessionList q (s.GetSessionID session) = some session ∨
      ∃ e ∈ s.jobs.mJobQueue q, e.2.session = session) ∨
    ∃ t, ∃ f ∈ frames t, ∃ job ∈ f.jobs, job.session = session

instance (s : Memory T S) (frames : T → List (Frame T S)) (session : S) :
    Decidable (Referenced s frames session) :=
  inferInstanceAs (Decidable (_ ∨ _))

/-- The last reference is dropped only where the rooms have none. -/
def releasable (s : Memory T S) (frames : T → List (Frame T S)) : Network.Choice T S → Bool
  | .destroy session => !decide (Referenced s frames session)
  | _ => true

/-- A thread that is not inside the code of a room calls into the sessions; one that does nothing
else calls `DoGlobalJobs`. -/
def enter (s : Memory T S) (frames : T → List (Frame T S)) (t : T) :
    Choice T S → Option (Memory T S × Frame T S)
  | .net c =>
      if ((frames t).all fun f => f.toNet.isSome) ∧ releasable s frames c then
        (Network.enter s.net (fun u => (frames u).filterMap Frame.toNet) t c).map fun r =>
          ({ s with net := r.1 }, .net r.2)
      else none
  | .job .callGlobalJobs => if (frames t).isEmpty then some (s, .job .globalJobs) else none
  | _ => none

def env (s : Memory T S) : Choice T S → Option (Memory T S)
  | .net c => (Network.env s.net c).map fun r => { s with net := r }
  | .job c => (Jobs.env s.jobs c).map fun r => { s with jobs := r }
  | _ => none

/-- Any number of threads that serve any number of sessions and run the jobs of the rooms. -/
def machine : Machine T (Memory T S) (Frame T S) (Choice T S) := ⟨enter, step, env⟩

def start (recvPool sendPool : Network.RegisteredBufferPool T) : RoomsConf T S :=
  ⟨⟨.start recvPool sendPool, .init, fun _ _ => none, fun _ => -1⟩, fun _ => []⟩

end Steps

section Spec

variable {T S : Type}

/-- What the sessions see. -/
abbrev netPart (s : RoomsConf T S) : Network.SystemConf T S := s.part Memory.net Frame.toNet

/-- What the job queues see. -/
abbrev jobPart (s : RoomsConf T S) : Jobs.RoomConf T ℕ S := s.part Memory.jobs Frame.toJob

variable [DecidableEq T] [DecidableEq S] [Fintype T]

/-- All that one action can do. -/
inductive Move (s : RoomsConf T S) : Action T (Choice T S) → RoomsConf T S → Prop
  | netStep (t f c fs net new) : s.frames t = .net f :: fs →
      Network.step s.mem.net t f c = some (net, new) → Move s (.step t (.net c))
        ⟨{ s.mem with net := net },
          Function.update s.frames t (callbacks f ++ new.map .net ++ fs)⟩
  | doAsync (t job fs) : s.frames t = .doAsync job :: fs →
      s.mem.GetChatRoom job.session < ChatRoomManager.construct.mChatRoomList.length →
      Move s (.step t .go) ⟨s.mem,
        Function.update s.frames t (.job (.push (s.mem.GetChatRoom job.session) job false) :: fs)⟩
  | jobStep (t f c fs jobs new) : s.frames t = .job f :: fs →
      (∀ q job pushOnly, c ≠ .callPush q job pushOnly) →
      Jobs.step s.mem.jobs t f c = some (jobs, new) → Move s (.step t (.job c))
        ⟨{ s.mem with jobs := jobs }, Function.update s.frames t (bodies f ++ new.map .job ++ fs)⟩
  | changeList (t q job fs) : s.frames t = .changeList q job :: fs → Move s (.step t .go)
      ⟨s.mem.changeList q job, Function.update s.frames t (.setRoomID q job :: fs)⟩
  | setRoomID (t q job fs) : s.frames t = .setRoomID q job :: fs → Move s (.step t .go)
      ⟨s.mem.setRoomID q job, Function.update s.frames t fs⟩
  | netEnter (t c net f) : (∀ g ∈ s.frames t, g.toNet.isSome) →
      Network.enter s.mem.net (netPart s).frames t c = some (net, f) → Move s (.enter t (.net c))
        ⟨{ s.mem with net := net }, Function.update s.frames t (.net f :: s.frames t)⟩
  | globalJobs (t) : s.frames t = [] → Move s (.enter t (.job .callGlobalJobs))
      ⟨s.mem, Function.update s.frames t (.job .globalJobs :: s.frames t)⟩
  | netEnv (c net) : Network.env s.mem.net c = some net → Move s (.env (.net c))
      ⟨{ s.mem with net := net }, s.frames⟩
  | jobEnv (c jobs) : Jobs.env s.mem.jobs c = some jobs → Move s (.env (.job c))
      ⟨{ s.mem with jobs := jobs }, s.frames⟩

variable {s s' : RoomsConf T S} {a : Action T (Choice T S)}

theorem step_move {t : T} {f : Frame T S} {c : Choice T S} {fs : List (Frame T S)}
    {mem : Memory T S} {new : List (Frame T S)} (hf : s.frames t = f :: fs)
    (h : step s.mem t f c = some (mem, new)) :
    Move s (.step t c) ⟨mem, Function.update s.frames t (new ++ fs)⟩ := by
  cases f with
  | net f =>
    cases c with
    | net c =>
      obtain ⟨⟨net, new'⟩, hstep, hr⟩ := Option.map_eq_some_iff.mp h
      obtain ⟨rfl, rfl⟩ := Prod.mk.inj hr
      exact .netStep t f c fs net new' hf hstep
    | _ => exact absurd h.symm (Option.some_ne_none _)
  | doAsync job =>
    cases c with
    | go =>
      simp only [step] at h
      split at h
      · next hroom =>
        obtain ⟨rfl, rfl⟩ := Prod.mk.inj (Option.some.inj h)
        exact .doAsync t job fs hf hroom
      · exact absurd h.symm (Option.some_ne_none _)
    | _ => exact absurd h.symm (Option.some_ne_none _)
  | job f =>
    cases c with
    | job c =>
      have hcall : ∀ q job pushOnly, c ≠ .callPush q job pushOnly := by
        rintro q job pushOnly rfl
        exact absurd h.symm (Option.some_ne_none _)
      have hmap : (Jobs.step s.mem.jobs t f c).map (fun r =>
          ({ s.mem with jobs := r.1 }, bodies f ++ r.2.map .job)) = some (mem, new) := by
        cases c with
        | callPush q job pushOnly => exact absurd rfl (hcall q job pushOnly)
        | _ => exact h
      obtain ⟨⟨jobs, new'⟩, hstep, hr⟩ := Option.map_eq_some_iff.mp hmap
      obtain ⟨rfl, rfl⟩ := Prod.mk.inj hr
      exact .jobStep t f c fs jobs new' hf hcall hstep
    | _ => exact absurd h.symm (Option.some_ne_none _)
  | changeList q job =>
    cases c with
    | go =>
      obtain ⟨rfl, rfl⟩ := Prod.mk.inj (Option.some.inj h)
      exact .changeList t q job fs hf
    | _ => exact absurd h.symm (Option.some_ne_none _)
  | setRoomID q job =>
    cases c with
    | go =>
      obtain ⟨rfl, rfl⟩ := Prod.mk.inj (Option.some.inj h)
      exact .setRoomID t q job fs hf
    | _ => exact absurd h.symm (Option.some_ne_none _)

theorem next_move (h : machine.next s a = some s') : Move s a s' := by
  rcases Machine.next_cases h with ⟨t, c, mem, f, rfl, he, rfl⟩ |
    ⟨t, c, f, fs, mem, new, rfl, hf, he, rfl⟩ | ⟨c, mem, rfl, he, rfl⟩
  · cases c with
    | net c =>
      simp only [machine, enter] at he
      split at he
      · next hfree =>
        obtain ⟨⟨net, f'⟩, henter, hr⟩ := Option.map_eq_some_iff.mp he
        obtain ⟨rfl, rfl⟩ := Prod.mk.inj hr
        exact .netEnter t c net f' (List.all_eq_true.mp hfree.1) henter
      · exact absurd he.symm (Option.some_ne_none _)
    | job c =>
      cases c with
      | callGlobalJobs =>
        simp only [machine, enter] at he
        split at he
        · next hidle =>
          obtain ⟨rfl, rfl⟩ := Prod.mk.inj (Option.some.inj he)
          exact .globalJobs t (List.isEmpty_iff.mp hidle)
        · exact absurd he.symm (Option.some_ne_none _)
      | _ => exact absurd he.symm (Option.some_ne_none _)
    | go => exact absurd he.symm (Option.some_ne_none _)
  · exact step_move hf he
  · cases c with
    | net c =>
      obtain ⟨net, henv, rfl⟩ := Option.map_eq_some_iff.mp he
      exact .netEnv c net henv
    | job c =>
      obtain ⟨jobs, henv, rfl⟩ := Option.map_eq_some_iff.mp he
      exact .jobEnv c jobs henv
    | go => exact absurd he.symm (Option.some_ne_none _)

end Spec

end ServerCore.App.Rooms
