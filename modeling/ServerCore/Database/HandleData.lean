import ServerCore.Database.DBLoadBalancer
import Mathlib.Data.List.Induction
import Mathlib.Data.List.Infix

namespace ServerCore.Database

/-- What a handler leaves behind; `pushed` counts the requests that were pushed to the service
meanwhile. -/
structure HandlerResult (W : Type) where
  world : W
  pushed : ℕ
  result : Bool

/-- `std::function<bool(std::shared_ptr<DBData>)>`; `W` is what handlers read and change. -/
abbrev DBHandlerFunc (W X : Type) : Type := W → DBData X → HandlerResult W

/-- `DBHandler` with its functions. An entry of `mDBHandlerList` is an empty function when
`operator[]` inserted it. -/
structure HandlerTable (W X : Type) where
  mDBHandlerList : UInt32 → Option (Option (DBHandlerFunc W X))
  useProtocol : UInt16 → Bool

/-- How a call of `HandleData` ends. -/
inductive HandleDataEnd (W : Type) where
  | returned (r : HandlerResult W)
  /-- The call of an empty function throws `std::bad_function_call`. -/
  | threw

namespace HandlerTable

variable {W X : Type}

def empty : HandlerTable W X := ⟨fun _ => none, fun _ => false⟩

/-- `RegisterHandler`; `devTest` tells whether `DEV_TEST` is defined. -/
def RegisterHandler (devTest : Bool) (h : HandlerTable W X) (protocol : UInt32)
    (fn : Option (DBHandlerFunc W X)) : HandlerTable W X × Bool :=
  match fn with
  | none => (h, false)
  | some fn =>
      if devTest && h.useProtocol protocol.toUInt16 then (h, false)
      else (⟨Function.update h.mDBHandlerList protocol (some (some fn)),
        Function.update h.useProtocol protocol.toUInt16 true⟩, true)

/-- The table after a sequence of calls of `RegisterHandler`. -/
def registered (devTest : Bool) (calls : List (UInt32 × Option (DBHandlerFunc W X))) :
    HandlerTable W X :=
  calls.foldl (fun h c => (h.RegisterHandler devTest c.1 c.2).1) empty

/-- `mDBHandlerList[protocolId](data)`. -/
def HandleData (h : HandlerTable W X) (world : W) (protocolId : UInt32) (data : DBData X) :
    HandlerTable W X × HandleDataEnd W :=
  match h.mDBHandlerList protocolId with
  | none =>
      ({ h with mDBHandlerList := Function.update h.mDBHandlerList protocolId (some none) }, .threw)
  | some none => (h, .threw)
  | some (some fn) => (h, .returned (fn world data))

/-- There is a handler for the protocol. -/
def Knows (h : HandlerTable W X) (protocolId : UInt32) : Bool :=
  (h.mDBHandlerList protocolId).join.isSome

/-- `HandleData` returns false for an unknown protocol and leaves the table as it is. -/
def Rejects (h : HandlerTable W X) (world : W) (protocolId : UInt32) (data : DBData X) : Prop :=
  h.Knows protocolId = false → (h.HandleData world protocolId data).1 = h ∧
    ∃ r, (h.HandleData world protocolId data).2 = .returned r ∧ r.result = false

/-- Some call registered a handler for the protocol, and `DEV_TEST` did not take it for a duplicate of
a protocol before it. -/
def Registers (devTest : Bool) (calls : List (UInt32 × Option (DBHandlerFunc W X)))
    (protocolId : UInt32) : Prop :=
  ∃ before fn, before ++ [(protocolId, some fn)] <+: calls ∧
    (devTest = true → ∀ c ∈ before, c.2.isSome → c.1.toUInt16 ≠ protocolId.toUInt16)

theorem registered_append (devTest : Bool) (calls : List (UInt32 × Option (DBHandlerFunc W X)))
    (c : UInt32 × Option (DBHandlerFunc W X)) : registered devTest (calls ++ [c]) =
      ((registered devTest calls).RegisterHandler devTest c.1 c.2).1 := by
  simp [registered, List.foldl_append]

/-- `useProtocol` has the low bits of the protocols that were registered. -/
theorem useProtocol_iff (devTest : Bool) (calls : List (UInt32 × Option (DBHandlerFunc W X)))
    (p : UInt16) : (registered devTest calls).useProtocol p = true ↔
      ∃ c ∈ calls, c.2.isSome ∧ c.1.toUInt16 = p := by
  induction calls using List.reverseRecOn with
  | nil => simp [registered, empty]
  | append_singleton calls c ih =>
    rw [registered_append]
    obtain ⟨protocol, fn⟩ := c
    cases fn with
    | none =>
      simp only [RegisterHandler, ih, List.mem_append, List.mem_singleton]
      constructor
      · rintro ⟨c, hc, hsome⟩
        exact ⟨c, .inl hc, hsome⟩
      · rintro ⟨c, hc | rfl, hsome⟩
        · exact ⟨c, hc, hsome⟩
        · simp at hsome
    | some fn =>
      have hsplit : (∃ c ∈ calls ++ [(protocol, some fn)], c.2.isSome ∧ c.1.toUInt16 = p) ↔
          (∃ c ∈ calls, c.2.isSome ∧ c.1.toUInt16 = p) ∨ protocol.toUInt16 = p := by
        simp [or_and_right, exists_or]
      rw [hsplit, ← ih]
      simp only [RegisterHandler]
      split
      · next hdup =>
        have hused := (Bool.and_eq_true_iff.mp hdup).2
        constructor
        · exact .inl
        · rintro (h | rfl)
          · exact h
          · exact hused
      · by_cases hp : protocol.toUInt16 = p
        · simp [hp]
        · simp [hp, Ne.symm hp]

/-- The table knows the protocols that were registered. -/
theorem knows_iff (devTest : Bool) (calls : List (UInt32 × Option (DBHandlerFunc W X)))
    (protocolId : UInt32) : (registered devTest calls).Knows protocolId = true ↔
      Registers devTest calls protocolId := by
  induction calls using List.reverseRecOn with
  | nil => simp [registered, empty, Knows, Registers]
  | append_singleton calls c ih =>
    have hstep : Registers devTest (calls ++ [c]) protocolId ↔ Registers devTest calls protocolId ∨
        (∃ fn, c = (protocolId, some fn)) ∧
          (devTest = true → (registered devTest calls).useProtocol protocolId.toUInt16 = false) := by
      have hunused : (registered devTest calls).useProtocol protocolId.toUInt16 = false ↔
          ∀ c ∈ calls, c.2.isSome → c.1.toUInt16 ≠ protocolId.toUInt16 := by
        rw [← Bool.not_eq_true, useProtocol_iff]
        simp
      simp only [Registers, List.prefix_concat_iff, hunused]
      constructor
      · rintro ⟨before, fn, hlast | hbefore, hfirst⟩
        · obtain ⟨rfl, hc⟩ := List.append_inj' hlast rfl
          exact .inr ⟨⟨fn, (List.singleton_inj.mp hc).symm⟩, hfirst⟩
        · exact .inl ⟨before, fn, hbefore, hfirst⟩
      · rintro (⟨before, fn, hbefore, hfirst⟩ | ⟨⟨fn, rfl⟩, hfirst⟩)
        · exact ⟨before, fn, .inr hbefore, hfirst⟩
        · exact ⟨calls, fn, .inl rfl, hfirst⟩
    rw [registered_append, hstep, ← ih]
    obtain ⟨protocol, fn⟩ := c
    cases fn with
    | none => simp [RegisterHandler]
    | some fn =>
      simp only [RegisterHandler]
      split
      · next hdup =>
        obtain ⟨hdev, hused⟩ := Bool.and_eq_true_iff.mp hdup
        constructor
        · exact .inl
        · rintro (h | ⟨⟨fn', hc⟩, hfirst⟩)
          · exact h
          · obtain ⟨rfl, _⟩ := Prod.mk.inj hc
            simp [hfirst hdev] at hused
      · next hnew =>
        by_cases hid : protocol = protocolId
        · subst hid
          have hfirst : devTest = true →
              (registered devTest calls).useProtocol protocol.toUInt16 = false := by
            intro hdev
            simpa [hdev] using hnew
          simpa [Knows] using .inr hfirst
        · simp [Knows, hid, Ne.symm hid]

theorem handleData_known {h : HandlerTable W X} {protocolId : UInt32}
    (hknown : h.Knows protocolId = true) (world : W) (data : DBData X) :
    ∃ r, h.HandleData world protocolId data = (h, .returned r) := by
  unfold HandleData
  cases hentry : h.mDBHandlerList protocolId with
  | none => simp [Knows, hentry] at hknown
  | some fn =>
    cases fn with
    | none => simp [Knows, hentry] at hknown
    | some fn => exact ⟨_, rfl⟩

theorem handleData_unknown {h : HandlerTable W X} {protocolId : UInt32}
    (hunknown : h.Knows protocolId = false) (world : W) (data : DBData X) :
    (h.HandleData world protocolId data).2 = .threw := by
  unfold HandleData
  cases hentry : h.mDBHandlerList protocolId with
  | none => rfl
  | some fn =>
    cases fn with
    | none => rfl
    | some fn => simp [Knows, hentry] at hunknown

/-- No unknown protocol is rejected. -/
theorem rejects_iff (h : HandlerTable W X) (world : W) (protocolId : UInt32) (data : DBData X) :
    h.Rejects world protocolId data ↔ h.Knows protocolId = true := by
  constructor
  · intro hrejects
    by_contra hunknown
    obtain ⟨_, r, hr, _⟩ := hrejects (by simpa using hunknown)
    rw [handleData_unknown (by simpa using hunknown)] at hr
    simp at hr
  · intro hknown hunknown
    simp [hknown] at hunknown

end HandlerTable

/-- `DBQueueData`, whose `handler` refers to one of the `DBHandler` objects. -/
structure DBRequest (K X : Type) where
  ProtocolId : UInt32
  data : DBData X
  handler : K

/-- What `DBService::Execute` works on. The last two fields are history: the requests whose handler
returned, and how many requests were pushed meanwhile. -/
structure Working (K W X : Type) where
  tables : K → HandlerTable W X
  world : W
  mQueueCount : Int
  handled : List (DBRequest K X)
  pushed : ℕ

namespace Working

variable {K W X : Type} [DecidableEq K]

/-- The loop of `Execute` over the requests of a batch. It returns whether an exception left it. -/
def handleAll : Working K W X → List (DBRequest K X) → Working K W X × Bool
  | s, [] => (s, false)
  | s, job :: jobs =>
      let r := (s.tables job.handler).HandleData s.world job.ProtocolId job.data
      let tables := Function.update s.tables job.handler r.1
      match r.2 with
      | .threw => ({ s with tables := tables }, true)
      | .returned result => handleAll
          { s with
            tables := tables
            world := result.world
            mQueueCount := s.mQueueCount + result.pushed
            handled := s.handled ++ [job]
            pushed := s.pushed + result.pushed } jobs

/-- `Execute` from the dequeue of `jobs` to its `mQueueCount.fetch_sub(jobCount)`. -/
def executeBatch (s : Working K W X) (jobs : List (DBRequest K X)) : Working K W X × Bool :=
  let r := s.handleAll jobs
  if r.2 then r else ({ r.1 with mQueueCount := r.1.mQueueCount - jobs.length }, false)

/-- There is a handler for the request. -/
def knows (s : Working K W X) (job : DBRequest K X) : Bool :=
  (s.tables job.handler).Knows job.ProtocolId

/-- Unknown protocols are rejected, the other requests are handled once each, and the count is
lowered by the size of the batch. -/
structure Survives (s : Working K W X) (jobs : List (DBRequest K X)) : Prop where
  rejects : ∀ job ∈ jobs, ∀ world, (s.tables job.handler).Rejects world job.ProtocolId job.data
  returns : (s.executeBatch jobs).2 = false
  tables : (s.executeBatch jobs).1.tables = s.tables
  handled : (s.executeBatch jobs).1.handled = s.handled ++ jobs.filter s.knows
  counted : (s.executeBatch jobs).1.mQueueCount + s.pushed + jobs.length =
    s.mQueueCount + (s.executeBatch jobs).1.pushed

/-- A batch of known protocols is handled to its end. -/
theorem handleAll_known (s : Working K W X) (jobs : List (DBRequest K X))
    (hknown : ∀ job ∈ jobs, s.knows job = true) :
    (s.handleAll jobs).2 = false ∧ (s.handleAll jobs).1.tables = s.tables ∧
      (s.handleAll jobs).1.handled = s.handled ++ jobs ∧
      (s.handleAll jobs).1.mQueueCount + s.pushed =
        s.mQueueCount + (s.handleAll jobs).1.pushed := by
  induction jobs generalizing s with
  | nil => simp [handleAll]
  | cons job jobs ih =>
    obtain ⟨result, hresult⟩ :=
      HandlerTable.handleData_known (hknown job List.mem_cons_self) s.world job.data
    have hsame : Function.update s.tables job.handler (s.tables job.handler) = s.tables :=
      Function.update_eq_self _ _
    simp only [handleAll, hresult, hsame]
    obtain ⟨hreturns, htables, hhandled, hcount⟩ := ih
      { s with
        world := result.world
        mQueueCount := s.mQueueCount + result.pushed
        handled := s.handled ++ [job]
        pushed := s.pushed + result.pushed }
      fun j hj => hknown j (List.mem_cons_of_mem job hj)
    refine ⟨hreturns, htables, ?_, ?_⟩
    · rw [hhandled, List.append_assoc, List.singleton_append]
    · push_cast at hcount
      omega

/-- The first unknown protocol of a batch ends it. -/
theorem handleAll_unknown (s : Working K W X) (jobs : List (DBRequest K X))
    (hunknown : ∃ job ∈ jobs, s.knows job = false) : (s.handleAll jobs).2 = true := by
  induction jobs generalizing s with
  | nil => simp at hunknown
  | cons job jobs ih =>
    cases hjob : s.knows job with
    | false => simp [handleAll, HandlerTable.handleData_unknown hjob]
    | true =>
      obtain ⟨result, hresult⟩ := HandlerTable.handleData_known hjob s.world job.data
      have hsame : Function.update s.tables job.handler (s.tables job.handler) = s.tables :=
        Function.update_eq_self _ _
      simp only [handleAll, hresult, hsame]
      apply ih
      obtain ⟨other, hother, hnot⟩ := hunknown
      rcases List.mem_cons.mp hother with rfl | hmem
      · rw [hjob] at hnot
        cases hnot
      · exact ⟨other, hmem, hnot⟩

/-- A batch is survived exactly when there is a handler for each of its requests. -/
theorem survives_iff (s : Working K W X) (jobs : List (DBRequest K X)) :
    s.Survives jobs ↔ ∀ job ∈ jobs, s.knows job = true := by
  constructor
  · intro h job hjob
    exact (HandlerTable.rejects_iff _ s.world _ _).mp (h.rejects job hjob s.world)
  · intro hknown
    obtain ⟨hreturns, htables, hhandled, hcount⟩ := s.handleAll_known jobs hknown
    have hall : jobs.filter s.knows = jobs := List.filter_eq_self.mpr hknown
    refine ⟨?_, ?_, ?_, ?_, ?_⟩
    · intro job hjob world
      exact (HandlerTable.rejects_iff _ world _ _).mpr (hknown job hjob)
    · simp [executeBatch, hreturns]
    · simp [executeBatch, hreturns, htables]
    · simp [executeBatch, hreturns, hhandled, hall]
    · simp only [executeBatch, hreturns, Bool.false_eq_true, if_false]
      omega

/-- A service whose handlers were registered by `calls`, before it executes a batch. -/
def ready (devTest : Bool) (calls : K → List (UInt32 × Option (DBHandlerFunc W X))) (world : W)
    (mQueueCount : Int) : Working K W X :=
  ⟨fun k => .registered devTest (calls k), world, mQueueCount, [], 0⟩

/-- A batch is survived exactly when a handler was registered for each of its requests. -/
theorem executeBatch_iff (devTest : Bool)
    (calls : K → List (UInt32 × Option (DBHandlerFunc W X))) (world : W) (mQueueCount : Int)
    (jobs : List (DBRequest K X)) : (ready devTest calls world mQueueCount).Survives jobs ↔
      ∀ job ∈ jobs, HandlerTable.Registers devTest (calls job.handler) job.ProtocolId := by
  rw [survives_iff]
  constructor
  · intro h job hjob
    exact (HandlerTable.knows_iff devTest _ _).mp (h job hjob)
  · intro h job hjob
    exact (HandlerTable.knows_iff devTest _ _).mpr (h job hjob)

/-- The only request is of a protocol that nobody registered. -/
theorem unknown_protocol_throws : ¬∀ (calls : Unit → List (UInt32 × Option (DBHandlerFunc Unit Unit)))
    (jobs : List (DBRequest Unit Unit)), (ready false calls () jobs.length).Survives jobs := by
  intro claim
  have hreturns := (claim (fun _ => []) [⟨7, ⟨0, 7, ()⟩, ()⟩]).returns
  simp [executeBatch, handleAll, ready, HandlerTable.registered, HandlerTable.HandleData,
    HandlerTable.empty] at hreturns

end Working

end ServerCore.Database
