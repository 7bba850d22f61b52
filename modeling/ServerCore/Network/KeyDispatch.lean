import ServerCore.Database.DBLoadBalancer
import ServerCore.Network.SessionSteps

namespace ServerCore.Network

open Framework Database

/-- Conversion to `size_t`. -/
def toSize (n : Int) : ℕ := (n % 2 ^ 64).toNat

/-- `ChatRoomManager`, its rooms by their numbers. -/
structure ChatRoomManager where
  mNextRoomID : Int
  mChatRoomList : List Int

def maxChatroomCount : Int := 6

namespace ChatRoomManager

def construct : ChatRoomManager :=
  (List.range maxChatroomCount.toNat).foldl
    (fun m _ => ⟨m.mNextRoomID + 1, m.mChatRoomList ++ [m.mNextRoomID]⟩) ⟨0, []⟩

theorem construct_rooms : construct.mChatRoomList = [0, 1, 2, 3, 4, 5] := by decide

/-- The subscript of `mChatRoomList`. -/
def GetChatRoom (workId : Int) : ℕ := toSize (workId.tmod maxChatroomCount)

end ChatRoomManager

/-- The subscript of `mRioCQEventList`, which has `size` elements, unless the modulus is zero. -/
def GetRIOCQ (size : ℕ) (index : Int) : Option ℕ :=
  if size = 0 then none else some (toSize index % size)

theorem GetRIOCQ_inside {size : ℕ} (h : 1 ≤ size) (index : Int) :
    ∃ i, GetRIOCQ size index = some i ∧ i < size := by
  have hne : size ≠ 0 := by omega
  exact ⟨toSize index % size, if_neg hne, Nat.mod_lt _ h⟩

theorem GetChatRoom_inside_iff (workId : Int) :
    ChatRoomManager.GetChatRoom workId < ChatRoomManager.construct.mChatRoomList.length ↔
      0 ≤ workId ∨ 6 ∣ workId := by
  have hpos : (0 : Int) < maxChatroomCount := by decide
  have hlt : workId.tmod maxChatroomCount < maxChatroomCount := Int.tmod_lt_of_pos _ hpos
  have hgt : -maxChatroomCount < workId.tmod maxChatroomCount := Int.lt_tmod_of_pos _ hpos
  have hlen : ChatRoomManager.construct.mChatRoomList.length = 6 := by
    rw [ChatRoomManager.construct_rooms]
    rfl
  rw [hlen]
  apply Iff.trans _ (tmod_nonneg_iff maxChatroomCount workId)
  unfold ChatRoomManager.GetChatRoom toSize
  -- a negative remainder becomes a huge subscript
  unfold maxChatroomCount at hlt hgt ⊢
  omega

/-- The three dispatchers choose a slot of their arrays. -/
def DispatchInside {T X : Type} (b : DBLoadBalancer T X) (queues : ℕ) (key : Int) : Prop :=
  (∃ n i, b.mServiceList = some n ∧ b.GetDBService key = some i ∧ 0 ≤ i ∧ i < n) ∧
  ChatRoomManager.GetChatRoom key < ChatRoomManager.construct.mChatRoomList.length ∧
  ∃ i, GetRIOCQ queues key = some i ∧ i < queues

theorem dispatchInside_iff {T X : Type} {b : DBLoadBalancer T X} {n queues : ℕ} (hb : b.Ready n)
    (hqueues : 1 ≤ queues) (key : Int) :
    DispatchInside b queues key ↔ 0 ≤ key ∨ (n : Int) ∣ key ∧ 6 ∣ key := by
  have hdb := DBLoadBalancer.GetDBService_inside_iff hb key
  have hroom := GetChatRoom_inside_iff key
  have hqueue := GetRIOCQ_inside hqueues key
  constructor
  · intro h
    obtain ⟨⟨m, i, hm, hi, h0, hlt⟩, hchat, _⟩ := h
    rw [hb.2.1] at hm
    obtain rfl := Option.some.inj hm
    rcases hdb.mp ⟨i, hi, h0, hlt⟩ with h | h
    · exact .inl h
    · apply (hroom.mp hchat).imp_right
      intro h6
      exact ⟨h, h6⟩
  · intro h
    obtain ⟨i, hi, h0, hlt⟩ := hdb.mpr (h.imp_right And.left)
    exact ⟨⟨n, i, hb.2.1, hi, h0, hlt⟩, hroom.mpr (h.imp_right And.right), hqueue⟩

section Numbers

variable {T S : Type} [DecidableEq T] [DecidableEq S]

/-- `sSessionID.fetch_add(1)` is next. -/
def Frame.numbers : Frame T → Bool
  | .connect .setSessionID => true
  | _ => false

/-- The numbers that `SetSessionID` hands out, in the order of its calls. -/
def numberLog (s : SystemConf T S) : Action T (Choice T S) → List Int
  | .step t _ =>
      match s.frames t with
      | f :: _ => if f.2.numbers then [s.mem.sSessionID] else []
      | [] => []
  | _ => []

/-- `SetSessionID` alone counts `sSessionID` up. -/
theorem step_sSessionID {this : S} {t : T} {σ σ' : System T S} {f : Frame T} {c : Choice T S}
    {new : List (Frame T)} (h : FrameStep this t σ f c σ' new) :
    f.numbers = true ∧ σ'.sSessionID = toInt32 (σ.sSessionID + 1) ∨
    f.numbers = false ∧ σ'.sSessionID = σ.sSessionID := by
  cases h with
  | send f c s' new _ => exact .inr ⟨rfl, rfl⟩
  | recv f c s' new _ => exact .inr ⟨rfl, rfl⟩
  | connect f c σ' new h =>
    cases h with
    | setSessionID => exact .inl ⟨rfl, rfl⟩
    | refuse f hf =>
      apply Or.inr
      rcases hf with rfl | rfl | rfl <;> exact ⟨rfl, rfl⟩
    | tryDequeue pool => cases pool <;> exact .inr ⟨rfl, rfl⟩
    | useCount pool => cases pool <;> exact .inr ⟨rfl, rfl⟩
    | _ => exact .inr ⟨rfl, rfl⟩
  | disconnect f c σ' new h =>
    apply Or.inr
    cases h <;> exact ⟨rfl, rfl⟩
  | destroy f c σ' new h =>
    apply Or.inr
    cases h with
    | enqueue pool => cases pool <;> exact ⟨rfl, rfl⟩
    | useCount pool => cases pool <;> exact ⟨rfl, rfl⟩
    | _ => exact ⟨rfl, rfl⟩

omit [DecidableEq T] in
theorem enter_sSessionID {σ σ' : System T S} {frames : T → List (SessionFrame T S)}
    {c : Choice T S} {this : S} {f : Frame T} (h : EnterStep σ frames c σ' this f) :
    σ'.sSessionID = σ.sSessionID := by
  cases h <;> rfl

omit [DecidableEq T] in
theorem env_sSessionID {σ σ' : System T S} (h : EnvStep σ σ') : σ'.sSessionID = σ.sSessionID := by
  cases h <;> rfl

variable [Fintype T] {ok : SystemConf T S → Action T (Choice T S) → Prop}
  {recvPool sendPool : RegisteredBufferPool T} {s : SystemConf T S} {ids : List Int}

/-- The numbers of a run are 1, 2, 3 and so on, as long as the counter does not wrap. -/
theorem numbers_of_run (h : machine.Logged ok numberLog (start recvPool sendPool) s ids) :
    ids = (List.range ids.length).map (fun k => toInt32 (1 + (k : ℕ))) ∧
      s.mem.sSessionID = toInt32 (1 + ids.length) := by
  apply h.invariant fun s ids => ids = (List.range ids.length).map
    (fun k => toInt32 (1 + (k : ℕ))) ∧ s.mem.sSessionID = toInt32 (1 + ids.length)
  · exact ⟨rfl, rfl⟩
  · intro s a s' ids _ hnumbers _ hs
    obtain ⟨hids, hnext⟩ := hnumbers
    have same (hlog : numberLog s a = []) (hmem : s'.mem.sSessionID = s.mem.sSessionID) :
        ids ++ numberLog s a = (List.range (ids ++ numberLog s a).length).map
          (fun k => toInt32 (1 + (k : ℕ))) ∧
        s'.mem.sSessionID = toInt32 (1 + (ids ++ numberLog s a).length) := by
      rw [hlog, List.append_nil]
      exact ⟨hids, hmem.trans hnext⟩
    rcases Machine.next_cases hs with ⟨t, c, mem, f, rfl, he, rfl⟩ |
      ⟨t, c, f, fs, mem, new, rfl, hf, he, rfl⟩ | ⟨c, mem, rfl, he, rfl⟩
    · exact same rfl (enter_sSessionID (enter_spec he))
    · obtain ⟨this, f⟩ := f
      obtain ⟨new, hstep, _⟩ := step_spec he
      rcases step_sSessionID hstep with ⟨hf', hmem⟩ | ⟨hf', hmem⟩
      · have hlog : numberLog s (.step t c) = [s.mem.sSessionID] := by simp [numberLog, hf, hf']
        have hwrap : toInt32 (toInt32 (1 + ids.length) + 1) =
            toInt32 (1 + (ids.length + 1 : ℕ)) := by
          unfold toInt32
          omega
        rw [hlog, List.length_append, List.length_singleton, List.range_succ, List.map_append,
          ← hids, hnext]
        refine ⟨rfl, ?_⟩
        show mem.sSessionID = _
        rw [hmem, hnext, hwrap]
      · have hlog : numberLog s (.step t c) = [] := by simp [numberLog, hf, hf']
        exact same hlog hmem
    · exact same rfl (env_sSessionID (env_spec he))

/-- Every key that is not negative stays inside; a negative key does only if both moduli
divide it. The first number that leaves its array is the one after `INT32_MAX`. -/
theorem keyDispatch_inside {P X : Type} {b : DBLoadBalancer P X} {n queues : ℕ} (hb : b.Ready n)
    (hqueues : 1 ≤ queues) :
    (∀ key, DispatchInside b queues key ↔ 0 ≤ key ∨ (n : Int) ∣ key ∧ 6 ∣ key) ∧
    ∀ (recvPool sendPool : RegisteredBufferPool T) (s : SystemConf T S) (ids : List Int),
      machine.Logged (fun _ _ => True) numberLog (start recvPool sendPool) s ids →
      ((∀ id ∈ ids, DispatchInside b queues id) ↔ ids.length < 2 ^ 31) := by
  refine ⟨dispatchInside_iff hb hqueues, ?_⟩
  intro recvPool sendPool s ids h
  have hids := (numbers_of_run h).1
  constructor
  · intro hall
    by_contra hlong
    have hmem : toInt32 (1 + (2 ^ 31 - 1 : ℕ)) ∈ ids := by
      rw [hids]
      exact List.mem_map_of_mem (List.mem_range.mpr (by omega))
    have hdvd := (dispatchInside_iff hb hqueues _).mp (hall _ hmem)
    have hmin : toInt32 (1 + (2 ^ 31 - 1 : ℕ)) = -2 ^ 31 := by decide
    rw [hmin] at hdvd
    omega
  · intro hshort id hid
    apply (dispatchInside_iff hb hqueues id).mpr
    rw [hids] at hid
    obtain ⟨k, hk, rfl⟩ := List.mem_map.mp hid
    have hk' := List.mem_range.mp hk
    have hrange : toInt32 (1 + (k : ℕ)) = 1 + (k : ℕ) :=
      toInt32_of_range _ (by omega) (by omega)
    omega

end Numbers

/-- Three services and four queues. -/
theorem keyDispatch_inside_three :
    let b := (DBLoadBalancer.Init (fun _ => true) "DSN=Game" 3
      (.construct : DBLoadBalancer Unit Unit)).2
    (∀ key, DispatchInside b 4 key ↔ 0 ≤ key ∨ ((3 : ℕ) : Int) ∣ key ∧ 6 ∣ key) ∧
    ∀ (recvPool sendPool : RegisteredBufferPool Bool) (s : SystemConf Bool Bool) (ids : List Int),
      machine.Logged (fun _ _ => True) numberLog (start recvPool sendPool) s ids →
      ((∀ id ∈ ids, DispatchInside b 4 id) ↔ ids.length < 2 ^ 31) := by
  intro b
  have hb : b.Ready 3 := DBLoadBalancer.Init_ready (fun _ => true) "DSN=Game" 3 (by decide)
  have hqueues : 1 ≤ 4 := by decide
  exact keyDispatch_inside (T := Bool) (S := Bool) hb hqueues

theorem negative_key : ¬∀ (b : DBLoadBalancer Unit Unit) (n queues : ℕ) (key : Int), b.Ready n →
    1 ≤ queues → -2 ^ 31 ≤ key → key < 2 ^ 31 → DispatchInside b queues key := by
  intro claim
  have hready := @DBLoadBalancer.Init_ready Unit Unit (fun _ => true) "DSN=Game" 3 (by decide)
  have h := claim _ 3 4 (-1) hready (by decide) (by decide) (by decide)
  have hchat : ¬ChatRoomManager.GetChatRoom (-1) <
      ChatRoomManager.construct.mChatRoomList.length := by decide
  exact hchat h.2.1

end ServerCore.Network
