import ServerCore.Framework.ConcurrentQueue
import Mathlib.Logic.Function.Basic

namespace ServerCore.Database

open Framework

def dbReconnectTime : ℕ := 5000

/-- `DBHandler`: the protocols for which a function is registered. -/
structure DBHandler where
  mDBHandlerList : List ℕ
  deriving DecidableEq

/-- `DBData`; `content` stands for the fields of the class that is derived from it. -/
structure DBData (X : Type) where
  WorkID : Int
  ProtocolID : ℕ
  content : X
  deriving DecidableEq

structure DBQueueData (X : Type) where
  ProtocolId : ℕ
  data : DBData X
  handler : DBHandler
  deriving DecidableEq

/-- `DBService`. Of a session only `isConnected()` is read; `none` is the null pointer. The
`int32_t` of `mQueueCount` does not wrap: fewer than `2 ^ 31` requests of a service are pending. -/
structure DBService (T X : Type) where
  mConnectionString : String
  mSession : Option Bool
  mQueueCount : Int
  mDBQueue : ConcurrentQueue T (DBQueueData X)

/-- `DBLoadBalancer`. `mServiceList` is null, or the length of the array whose elements
`service` lists. -/
structure DBLoadBalancer (T X : Type) where
  mConnectionString : String
  mServiceList : Option ℕ
  service : ℕ → DBService T X
  mServiceCount : Int

/-- What `DBLoadBalancer::Push` comes to: it returns false, it divides by zero, or it calls
`Push` of an element of `mServiceList`. -/
inductive Pushed (X : Type) where
  | refused
  | divided
  | called (service : Int) (protocolId : ℕ) (data : Option (DBData X)) (handler : DBHandler)
  deriving DecidableEq

namespace DBService

variable {T X : Type}

def construct : DBService T X := ⟨"", none, 0, []⟩

/-- `Connect`, where `ok` tells whether the constructor of the session returns. -/
def Connect (s : DBService T X) (connectionString : String) (ok : Bool) : Bool × DBService T X :=
  if ok then (true, { s with mConnectionString := connectionString, mSession := some true })
  else (false, { s with mConnectionString := connectionString })

end DBService

/-- The sign of a truncated remainder is that of the key. -/
theorem tmod_nonneg_iff (n key : Int) : 0 ≤ key.tmod n ↔ 0 ≤ key ∨ n ∣ key := by
  constructor
  · intro h
    by_cases hkey : 0 ≤ key
    · exact .inl hkey
    · have hle : 0 ≤ (-key).tmod n := Int.tmod_nonneg n (by omega)
      rw [Int.neg_tmod] at hle
      have hzero : key.tmod n = 0 := by omega
      exact .inr (Int.dvd_iff_tmod_eq_zero.mpr hzero)
  · intro h
    rcases h with h | h
    · exact Int.tmod_nonneg n h
    · have hzero : key.tmod n = 0 := Int.dvd_iff_tmod_eq_zero.mp h
      omega

namespace DBLoadBalancer

variable {T X : Type}

def construct : DBLoadBalancer T X := ⟨"", none, fun _ => .construct, 0⟩

/-- The loop of `Init` over the services that remain. -/
def connectServices (connect : ℕ → Bool) (connectionString : String) :
    List ℕ → DBLoadBalancer T X → Bool × DBLoadBalancer T X
  | [], b => (true, b)
  | i :: rest, b =>
      let r := (b.service i).Connect connectionString (connect i)
      let b := { b with service := Function.update b.service i r.2 }
      if r.1 = false then (false, b) else connectServices connect connectionString rest b

/-- `Init`, where `connect` tells which services connect. -/
def Init (connect : ℕ → Bool) (connectionString : String) (serviceCount : Int)
    (b : DBLoadBalancer T X) : Bool × DBLoadBalancer T X :=
  if connectionString = "" ∨ serviceCount ≤ 0 then (false, b)
  else
    let n := serviceCount.toNat
    let b := { b with
      mConnectionString := connectionString
      mServiceList := some n
      service := fun _ => .construct }
    let r := connectServices connect connectionString (List.range n) b
    if r.1 = false then (false, r.2) else (true, { r.2 with mServiceCount := serviceCount })

/-- The subscript `workId % mServiceCount`, unless this divides by zero. -/
def GetDBService (b : DBLoadBalancer T X) (workId : Int) : Option Int :=
  if b.mServiceCount = 0 then none else some (workId.tmod b.mServiceCount)

def Push (b : DBLoadBalancer T X) (workId : Int) (protocolId : ℕ) (data : Option (DBData X))
    (handler : DBHandler) : Pushed X :=
  if b.mServiceList = none then .refused
  else
    match b.GetDBService workId with
    | none => .divided
    | some i => .called i protocolId data handler

/-- The overload of `Push` that reads key and protocol from the data. -/
def PushData (b : DBLoadBalancer T X) (data : Option (DBData X)) (handler : DBHandler) :
    Pushed X :=
  match data with
  | none => .refused
  | some d => b.Push d.WorkID d.ProtocolID data handler

/-- The loop stops at the first service that does not connect, and leaves list and count. -/
theorem connectServices_spec (connect : ℕ → Bool) (connectionString : String) (is : List ℕ)
    (b : DBLoadBalancer T X) :
    ((connectServices connect connectionString is b).1 = true ↔ ∀ i ∈ is, connect i = true) ∧
    (connectServices connect connectionString is b).2.mServiceList = b.mServiceList ∧
    (connectServices connect connectionString is b).2.mServiceCount = b.mServiceCount := by
  induction is generalizing b with
  | nil => simp [connectServices]
  | cons i is ih =>
    cases hi : connect i with
    | false => simp [connectServices, DBService.Connect, hi]
    | true =>
      have rest := ih { b with
        service := Function.update b.service i ((b.service i).Connect connectionString true).2 }
      simpa [connectServices, DBService.Connect, hi] using rest

/-- Nothing is queued at a service before the first `Push`. -/
theorem Init_service (connect : ℕ → Bool) (connectionString : String) (serviceCount : Int)
    (i : ℕ) :
    let s := (Init connect connectionString serviceCount
      (construct : DBLoadBalancer T X)).2.service i
    s.mQueueCount = 0 ∧ s.mDBQueue = [] := by
  have loop (is : List ℕ) (b : DBLoadBalancer T X)
      (hb : ∀ i, (b.service i).mQueueCount = 0 ∧ (b.service i).mDBQueue = []) :
      ∀ i, ((connectServices connect connectionString is b).2.service i).mQueueCount = 0 ∧
        ((connectServices connect connectionString is b).2.service i).mDBQueue = [] := by
    induction is generalizing b with
    | nil => exact hb
    | cons j is ih =>
      have hj (ok : Bool) (i : ℕ) :
          (Function.update b.service j ((b.service j).Connect connectionString ok).2 i).mQueueCount
            = 0 ∧
          (Function.update b.service j ((b.service j).Connect connectionString ok).2 i).mDBQueue
            = [] := by
        by_cases hi : i = j
        · subst hi
          cases ok <;> simpa [DBService.Connect] using hb i
        · simpa [hi] using hb i
      cases hc : connect j with
      | false => simpa [connectServices, DBService.Connect, hc] using hj false
      | true =>
        have rest := ih { b with
          service := Function.update b.service j ((b.service j).Connect connectionString true).2 }
          (hj true)
        simpa [connectServices, DBService.Connect, hc] using rest
  unfold Init
  split
  · exact ⟨rfl, rfl⟩
  · have h := loop (List.range serviceCount.toNat) ⟨connectionString, some serviceCount.toNat,
      fun _ => .construct, 0⟩ (fun _ => ⟨rfl, rfl⟩) i
    dsimp only
    split <;> exact h

/-- All that `Init` of a new balancer can leave behind. -/
theorem Init_cases (connect : ℕ → Bool) (connectionString : String) (serviceCount : Int) :
    let r := Init connect connectionString serviceCount (construct : DBLoadBalancer T X)
    ((connectionString = "" ∨ serviceCount ≤ 0) ∧ r = (false, construct)) ∨
    (0 < serviceCount ∧ connectionString ≠ "" ∧ (∀ i < serviceCount.toNat, connect i = true) ∧
      r.1 = true ∧ r.2.mServiceList = some serviceCount.toNat ∧
      r.2.mServiceCount = serviceCount) ∨
    (connectionString ≠ "" ∧ (∃ i < serviceCount.toNat, connect i = false) ∧ r.1 = false ∧
      r.2.mServiceList = some serviceCount.toNat ∧ r.2.mServiceCount = 0) := by
  intro r
  by_cases hguard : connectionString = "" ∨ serviceCount ≤ 0
  · exact .inl ⟨hguard, if_pos hguard⟩
  have hstring : connectionString ≠ "" := fun h => hguard (.inl h)
  have hpos : 0 < serviceCount := Int.not_le.mp fun h => hguard (.inr h)
  let b : DBLoadBalancer T X :=
    ⟨connectionString, some serviceCount.toNat, fun _ => .construct, 0⟩
  let c := connectServices connect connectionString (List.range serviceCount.toNat) b
  obtain ⟨hall, hlist, hcount⟩ :
      (c.1 = true ↔ ∀ i ∈ List.range serviceCount.toNat, connect i = true) ∧
      c.2.mServiceList = some serviceCount.toNat ∧ c.2.mServiceCount = 0 :=
    connectServices_spec connect connectionString _ b
  have hr : r = if c.1 = false then (false, c.2)
      else (true, { c.2 with mServiceCount := serviceCount }) := if_neg hguard
  apply Or.inr
  cases hc : c.1 with
  | true =>
    apply Or.inl
    rw [hc] at hr
    refine ⟨hpos, hstring, fun i hi => hall.mp hc i (List.mem_range.mpr hi), ?_, ?_, ?_⟩
    · rw [hr]; rfl
    · rw [hr]; exact hlist
    · rw [hr]; rfl
  | false =>
    apply Or.inr
    rw [hc] at hr
    have hsome : ∃ i < serviceCount.toNat, connect i = false := by
      by_contra hnone
      have hconnect : c.1 = true := by
        apply hall.mpr
        intro i hi
        by_contra hi'
        exact hnone ⟨i, List.mem_range.mp hi, by simpa using hi'⟩
      rw [hc] at hconnect
      cases hconnect
    refine ⟨hstring, hsome, ?_, ?_, ?_⟩
    · rw [hr]; rfl
    · rw [hr]; exact hlist
    · rw [hr]; exact hcount

/-- What an `Init` of `n` services that returned true leaves. -/
def Ready (b : DBLoadBalancer T X) (n : ℕ) : Prop :=
  1 ≤ n ∧ b.mServiceList = some n ∧ b.mServiceCount = n

theorem Init_ready (connect : ℕ → Bool) (connectionString : String) (n : ℕ)
    (h : (Init connect connectionString n (construct : DBLoadBalancer T X)).1 = true) :
    (Init connect connectionString n (construct : DBLoadBalancer T X)).2.Ready n := by
  rcases @Init_cases T X connect connectionString n with ⟨_, hr⟩ | ⟨hpos, _, _, _, hlist, hcount⟩ |
    ⟨_, _, hok, _⟩
  · rw [hr] at h
    cases h
  · exact ⟨by omega, hlist, hcount⟩
  · rw [hok] at h
    cases h

/-- A loop that goes through leaves every service connected. -/
theorem connectServices_session (connect : ℕ → Bool) (connectionString : String) (is : List ℕ)
    (b : DBLoadBalancer T X) (h : (connectServices connect connectionString is b).1 = true) (i : ℕ)
    (hi : i ∈ is ∨ (b.service i).mSession ≠ none) :
    ((connectServices connect connectionString is b).2.service i).mSession ≠ none := by
  induction is generalizing b with
  | nil => exact hi.resolve_left List.not_mem_nil
  | cons j is ih =>
    cases hj : connect j with
    | false => simp [connectServices, DBService.Connect, hj] at h
    | true =>
      simp only [connectServices, DBService.Connect, hj, if_true, Bool.true_eq_false,
        if_false] at h ⊢
      apply ih _ h
      by_cases heq : i = j
      · subst heq
        simp
      · simpa [heq] using hi

theorem Init_session (connect : ℕ → Bool) (connectionString : String) (n : ℕ)
    (h : (Init connect connectionString n (construct : DBLoadBalancer T X)).1 = true) {i : ℕ}
    (hi : i < n) : ((Init connect connectionString n
      (construct : DBLoadBalancer T X)).2.service i).mSession ≠ none := by
  unfold Init at h ⊢
  split at h
  · exact absurd h Bool.false_ne_true
  · next hguard =>
    rw [if_neg hguard]
    dsimp only at h ⊢
    split at h
    · exact absurd h Bool.false_ne_true
    · next hloop =>
      rw [if_neg hloop]
      apply connectServices_session connect connectionString _ _ (by simpa using hloop)
      exact .inl (List.mem_range.mpr (by omega))

theorem GetDBService_inside_iff {b : DBLoadBalancer T X} {n : ℕ} (hb : b.Ready n)
    (workId : Int) :
    (∃ i, b.GetDBService workId = some i ∧ 0 ≤ i ∧ i < n) ↔ 0 ≤ workId ∨ (n : Int) ∣ workId := by
  obtain ⟨hn, _, hcount⟩ := hb
  have hpos : (0 : Int) < n := by omega
  have hget : b.GetDBService workId = some (workId.tmod n) := by
    unfold GetDBService
    rw [hcount, if_neg (by omega)]
  have hlt : workId.tmod n < n := Int.tmod_lt_of_pos _ hpos
  rw [← tmod_nonneg_iff n workId, hget]
  constructor
  · intro h
    obtain ⟨i, hi, h0, _⟩ := h
    rwa [Option.some.inj hi]
  · intro h
    exact ⟨_, rfl, h, hlt⟩

theorem Push_null {b : DBLoadBalancer T X} (h : b.mServiceList = none) (workId : Int)
    (protocolId : ℕ) (data : Option (DBData X)) (handler : DBHandler) :
    b.Push workId protocolId data handler = .refused := if_pos h

theorem Push_divided {b : DBLoadBalancer T X} (hlist : b.mServiceList ≠ none)
    (hcount : b.mServiceCount = 0) (workId : Int) (protocolId : ℕ) (data : Option (DBData X))
    (handler : DBHandler) : b.Push workId protocolId data handler = .divided := by
  simp [Push, hlist, GetDBService, hcount]

theorem Push_ne_divided {b : DBLoadBalancer T X} (hcount : b.mServiceCount ≠ 0) (workId : Int)
    (protocolId : ℕ) (data : Option (DBData X)) (handler : DBHandler) :
    b.Push workId protocolId data handler ≠ .divided := by
  by_cases hlist : b.mServiceList = none
  · simp [Push, hlist]
  · simp [Push, hlist, GetDBService, hcount]

/-- After `Init` every `Push` returns false when `Init` did, and none divides by zero. -/
def SafelyOff (X : Type) (connect : ℕ → Bool) (connectionString : String) (serviceCount : Int) :
    Prop :=
  let r := Init connect connectionString serviceCount (construct : DBLoadBalancer Unit X)
  (r.1 = false → ∀ workId protocolId data handler,
    r.2.Push workId protocolId data handler = .refused ∧ r.2.PushData data handler = .refused) ∧
  (r.1 = true → r.2.mServiceCount = serviceCount) ∧
  ∀ workId protocolId data handler, r.2.Push workId protocolId data handler ≠ .divided ∧
    r.2.PushData data handler ≠ .divided

theorem PushData_eq (b : DBLoadBalancer T X) (data : Option (DBData X)) (handler : DBHandler) :
    b.PushData data handler = .refused ∨
      ∃ workId protocolId, b.PushData data handler = b.Push workId protocolId data handler := by
  cases data with
  | none => exact .inl rfl
  | some d => exact .inr ⟨d.WorkID, d.ProtocolID, rfl⟩

/-- A start-up leaves the balancer safe exactly when it connects no service at all or every
one: the list is published before the first service connects, the count after the last. -/
theorem safelyOff_iff (X : Type) (connect : ℕ → Bool) (connectionString : String)
    (serviceCount : Int) :
    SafelyOff X connect connectionString serviceCount ↔
      connectionString = "" ∨ ∀ i < serviceCount.toNat, connect i = true := by
  rcases @Init_cases Unit X connect connectionString serviceCount with
    ⟨hguard, hr⟩ | ⟨hpos, hstring, hall, hok, hlist, hcount⟩ |
    ⟨hstring, ⟨i, hi, hfail⟩, hok, hlist, hcount⟩
  · have hnull : (construct : DBLoadBalancer Unit X).mServiceList = none := rfl
    have hcond : connectionString = "" ∨ ∀ i < serviceCount.toNat, connect i = true := by
      apply hguard.imp_right
      intro h i hi
      omega
    refine iff_of_true ?_ hcond
    have hpush := Push_null hnull
    have hdata (data : Option (DBData X)) (handler : DBHandler) :
        (construct : DBLoadBalancer Unit X).PushData data handler = .refused := by
      rcases PushData_eq construct data handler with h | ⟨workId, protocolId, h⟩
      · exact h
      · rw [h, hpush]
    unfold SafelyOff
    simp only [hr, hpush, hdata]
    simp
  · refine iff_of_true ?_ (.inr hall)
    have hcount' : (Init connect connectionString serviceCount
        (construct : DBLoadBalancer Unit X)).2.mServiceCount ≠ 0 := by
      rw [hcount]
      omega
    have hne := Push_ne_divided hcount'
    refine ⟨fun h => absurd (hok.symm.trans h) (by decide), fun _ => hcount, ?_⟩
    intro workId protocolId data handler
    refine ⟨hne _ _ _ _, ?_⟩
    rcases PushData_eq _ data handler with h | ⟨workId', protocolId', h⟩
    · rw [h]
      simp
    · rw [h]
      exact hne _ _ _ _
  · have hsome := hlist.trans_ne (Option.some_ne_none _)
    apply iff_of_false
    · intro h
      exact (h.2.2 0 0 none ⟨[]⟩).1 (Push_divided hsome hcount _ _ _ _)
    · intro hcond
      rcases hcond with h | h
      · exact hstring h
      · rw [h i hi] at hfail
        cases hfail

/-- The second of two services does not connect. -/
theorem second_service_down : ¬∀ (connect : ℕ → Bool) (connectionString : String)
    (serviceCount : Int), 1 ≤ serviceCount → SafelyOff Unit connect connectionString serviceCount := by
  intro claim
  have h := claim (fun i => i == 0) "DSN=Game" 2 (by decide)
  have hcount : (Init (fun i => i == 0) "DSN=Game" 2
      (construct : DBLoadBalancer Unit Unit)).2.mServiceCount = 0 := by decide
  have hlist : (Init (fun i => i == 0) "DSN=Game" 2
      (construct : DBLoadBalancer Unit Unit)).2.mServiceList ≠ none := by decide
  exact (h.2.2 7 1 none ⟨[]⟩).1 (Push_divided hlist hcount 7 1 none ⟨[]⟩)

end DBLoadBalancer

end ServerCore.Database
