import ServerCore.Database.DBLoadBalancer
import Mathlib.Algebra.BigOperators.Group.Finset.Basic
import Mathlib.Algebra.BigOperators.Group.Finset.Piecewise

namespace ServerCore.Database

open Framework

/-- A call of one of the four overloads of `Push`. -/
inductive PushCall (X : Type) where
  | push (workId : Int) (protocolId : ℕ) (data : Option (DBData X)) (handler : DBHandler)
  | pushData (data : Option (DBData X)) (handler : DBHandler)
  /-- `GameDBLoadBalancer::Push(workId, protocolId, data)`. -/
  | gamePush (workId : Int) (protocolId : ℕ) (data : Option (DBData X))
  /-- `GameDBLoadBalancer::Push(data)`. -/
  | gamePushData (data : Option (DBData X))
  deriving DecidableEq

namespace PushCall

variable {X : Type}

/-- The work id that the call goes by. -/
def key : PushCall X → Option Int
  | push workId _ _ _ | gamePush workId _ _ => some workId
  | pushData data _ | gamePushData data => data.map DBData.WorkID

def data : PushCall X → Option (DBData X)
  | push _ _ data _ | pushData data _ | gamePushData data => data
  | gamePush workId protocolId data =>
      data.map fun d => { d with WorkID := workId, ProtocolID := protocolId }

/-- An overload with a work id is called with null data. -/
def dropsNull : PushCall X → Bool
  | push _ _ data _ | gamePush _ _ data => data.isNone
  | pushData _ _ | gamePushData _ => false

end PushCall

/-- `DBService::Push` by thread `t`. -/
def DBService.Push {T X : Type} (s : DBService T X) (t : T) (protocolId : ℕ)
    (data : Option (DBData X)) (handler : DBHandler) : Bool × DBService T X :=
  match data with
  | none => (false, s)
  | some data => (true, { s with
      mQueueCount := s.mQueueCount + 1
      mDBQueue := s.mDBQueue.enqueue t ⟨protocolId, data, handler⟩ })

namespace DBLoadBalancer

variable {T X : Type}

/-- The rest of `DBLoadBalancer::Push`, which drops what `DBService::Push` returns. A subscript
outside of `mServiceList` leads nowhere. -/
def serve (b : DBLoadBalancer T X) (t : T) : Pushed X → Option (Bool × DBLoadBalancer T X)
  | .refused => some (false, b)
  | .divided => none
  | .called i protocolId data handler =>
      if 0 ≤ i ∧ i < (b.mServiceList.getD 0 : ℕ) then
        let r := (b.service i.toNat).Push t protocolId data handler
        some (true, { b with service := Function.update b.service i.toNat r.2 })
      else none

/-- A call by thread `t`; `gameHandler` is `GameDBHandler::GetInstance()`. -/
def call (gameHandler : DBHandler) (b : DBLoadBalancer T X) (t : T) :
    PushCall X → Option (Bool × DBLoadBalancer T X)
  | .push workId protocolId data handler => b.serve t (b.Push workId protocolId data handler)
  | .pushData data handler => b.serve t (b.PushData data handler)
  | .gamePush workId protocolId data =>
      let data := data.map fun d => { d with WorkID := workId, ProtocolID := protocolId }
      b.serve t (b.Push workId protocolId data gameHandler)
  | .gamePushData data => b.serve t (b.PushData data gameHandler)

/-- What the calls return, one after another. -/
def run (gameHandler : DBHandler) : DBLoadBalancer T X → List (T × PushCall X) →
    Option (List Bool × DBLoadBalancer T X)
  | b, [] => some ([], b)
  | b, c :: calls => (b.call gameHandler c.1 c.2).bind fun r =>
      (run gameHandler r.2 calls).map fun rest => (r.1 :: rest.1, rest.2)

/-- Exactly one request was added to the queue of service `workId mod n`, and none to any other. -/
def Added (n : ℕ) (c : PushCall X) (b b' : DBLoadBalancer T X) : Prop :=
  ∃ workId, c.key = some workId ∧
    (b'.service (workId.toNat % n)).mDBQueue.length =
      (b.service (workId.toNat % n)).mDBQueue.length + 1 ∧
    ∀ i, i ≠ workId.toNat % n → (b'.service i).mDBQueue = (b.service i).mDBQueue

/-- The requests in all queues. -/
def queued (n : ℕ) (b : DBLoadBalancer T X) : ℕ :=
  ∑ i ∈ Finset.range n, (b.service i).mDBQueue.length

/-- Each call returns true exactly when it added its request, and the run returns true as often as
it has queued a request. -/
structure TellsTruth (gameHandler : DBHandler) (n : ℕ) (b : DBLoadBalancer T X)
    (calls : List (T × PushCall X)) : Prop where
  returns : (b.run gameHandler calls).isSome
  each : ∀ before t c after results b₁ result b₂, calls = before ++ (t, c) :: after →
    b.run gameHandler before = some (results, b₁) →
    b₁.call gameHandler t c = some (result, b₂) → (result = true ↔ Added n c b₁ b₂)
  total : ∀ results b', b.run gameHandler calls = some (results, b') →
    results.count true + b.queued n = b'.queued n

theorem Added.queued {n : ℕ} (hn : 1 ≤ n) {c : PushCall X} {b b' : DBLoadBalancer T X}
    (h : Added n c b b') : b'.queued n = b.queued n + 1 := by
  obtain ⟨workId, _, hone, hothers⟩ := h
  have hmem : workId.toNat % n ∈ Finset.range n := Finset.mem_range.mpr (Nat.mod_lt _ (by omega))
  have hlen : ∀ i ∈ Finset.range n, (b'.service i).mDBQueue.length =
      (b.service i).mDBQueue.length + if i = workId.toNat % n then 1 else 0 := by
    intro i _
    split
    · next hi => rw [hi, hone]
    · next hi => rw [hothers i hi, Nat.add_zero]
  rw [DBLoadBalancer.queued, Finset.sum_congr rfl hlen, Finset.sum_add_distrib,
    Finset.sum_ite_eq', if_pos hmem, DBLoadBalancer.queued]

/-- `Push` of a non-negative work id reaches its service. -/
theorem Push_ready {b : DBLoadBalancer T X} {n : ℕ} (hb : b.Ready n) {workId : Int}
    (hkey : 0 ≤ workId) (protocolId : ℕ) (data : Option (DBData X)) (handler : DBHandler) (t : T) :
    b.serve t (b.Push workId protocolId data handler) = some (true, { b with
      service := Function.update b.service (workId.toNat % n)
        ((b.service (workId.toNat % n)).Push t protocolId data handler).2 }) := by
  obtain ⟨hn, hlist, hcount⟩ := hb
  have hindex : workId.tmod n = ((workId.toNat % n : ℕ) : Int) := by
    rw [Int.tmod_eq_emod_of_nonneg hkey, Int.natCast_mod, Int.toNat_of_nonneg hkey]
  have hlt : workId.toNat % n < n := Nat.mod_lt _ (by omega)
  have hne : (n : Int) ≠ 0 := by omega
  simp only [Push, hlist, reduceCtorEq, if_false, GetDBService, hcount, hne, hindex, serve,
    Option.getD_some, Int.toNat_natCast]
  rw [if_pos ⟨by omega, by omega⟩]

/-- One request of a service more. -/
theorem added_of_some {b : DBLoadBalancer T X} {n : ℕ} {c : PushCall X} {workId : Int}
    (hkey : c.key = some workId) (t : T) (protocolId : ℕ) (d : DBData X) (handler : DBHandler) :
    Added n c b { b with
      service := Function.update b.service (workId.toNat % n)
        ((b.service (workId.toNat % n)).Push t protocolId (some d) handler).2 } := by
  refine ⟨workId, hkey, ?_, ?_⟩
  · simp [DBService.Push, ConcurrentQueue.enqueue]
  · intro i hi
    simp [Function.update_of_ne hi]

/-- An overload with a work id returns true, whether or not there is data to queue. -/
theorem serve_spec {b : DBLoadBalancer T X} {n : ℕ} (hb : b.Ready n) {c : PushCall X} {workId : Int}
    (hkey : c.key = some workId) (hnonneg : 0 ≤ workId) (t : T) (protocolId : ℕ)
    (data : Option (DBData X)) (handler : DBHandler) :
    ∃ b', b.serve t (b.Push workId protocolId data handler) = some (true, b') ∧ b'.Ready n ∧
      (data = none → b' = b) ∧ (data ≠ none → Added n c b b') := by
  refine ⟨_, Push_ready hb hnonneg protocolId data handler t, hb, ?_, ?_⟩
  · rintro rfl
    simp [DBService.Push]
  · intro hdata
    obtain ⟨d, rfl⟩ := Option.ne_none_iff_exists'.mp hdata
    exact added_of_some hkey t protocolId d handler

theorem call_spec (gameHandler : DBHandler) {b : DBLoadBalancer T X} {n : ℕ} (hb : b.Ready n)
    (t : T) {c : PushCall X} (hnonneg : ∀ workId, c.key = some workId → 0 ≤ workId) :
    ∃ result b', b.call gameHandler t c = some (result, b') ∧ b'.Ready n ∧
      (c.data = none → b' = b ∧ result = c.dropsNull) ∧
      (c.data ≠ none → Added n c b b' ∧ result = true ∧ c.dropsNull = false) := by
  cases c with
  | push workId protocolId data handler =>
    obtain ⟨b', hserve, hready, hnull, hadded⟩ :=
      serve_spec hb (c := .push workId protocolId data handler) rfl (hnonneg workId rfl) t
        protocolId data handler
    refine ⟨true, b', hserve, hready, ?_, ?_⟩
    · intro hdata
      exact ⟨hnull hdata, by simpa [PushCall.data, PushCall.dropsNull] using hdata⟩
    · intro hdata
      exact ⟨hadded hdata, rfl, by
        simpa [PushCall.data, PushCall.dropsNull, Option.isSome_iff_ne_none] using hdata⟩
  | gamePush workId protocolId data =>
    obtain ⟨b', hserve, hready, hnull, hadded⟩ :=
      serve_spec hb (c := .gamePush workId protocolId data) rfl (hnonneg workId rfl) t
        protocolId (data.map fun d => { d with WorkID := workId, ProtocolID := protocolId })
        gameHandler
    refine ⟨true, b', hserve, hready, ?_, ?_⟩
    · intro hdata
      exact ⟨hnull hdata, by simpa [PushCall.data, PushCall.dropsNull] using hdata⟩
    · intro hdata
      exact ⟨hadded hdata, rfl, by
        simpa [PushCall.data, PushCall.dropsNull, Option.isSome_iff_ne_none] using hdata⟩
  | pushData data handler =>
    cases data with
    | none => exact ⟨false, b, rfl, hb, fun _ => ⟨rfl, rfl⟩, fun h => absurd rfl h⟩
    | some d =>
      obtain ⟨b', hserve, hready, _, hadded⟩ :=
        serve_spec hb (c := .pushData (some d) handler) rfl (hnonneg d.WorkID rfl) t d.ProtocolID
          (some d) handler
      exact ⟨true, b', hserve, hready, fun h => absurd h (by simp [PushCall.data]),
        fun _ => ⟨hadded (by simp), rfl, rfl⟩⟩
  | gamePushData data =>
    cases data with
    | none => exact ⟨false, b, rfl, hb, fun _ => ⟨rfl, rfl⟩, fun h => absurd rfl h⟩
    | some d =>
      obtain ⟨b', hserve, hready, _, hadded⟩ :=
        serve_spec hb (c := .gamePushData (some d)) rfl (hnonneg d.WorkID rfl) t d.ProtocolID
          (some d) gameHandler
      exact ⟨true, b', hserve, hready, fun h => absurd h (by simp [PushCall.data]),
        fun _ => ⟨hadded (by simp), rfl, rfl⟩⟩

/-- The work ids of the calls are not negative. -/
def Nonnegative (calls : List (T × PushCall X)) : Prop :=
  ∀ c ∈ calls, ∀ workId, c.2.key = some workId → 0 ≤ workId

/-- A run returns true once for each request it queues, and once for each null pointer that an
overload with a work id drops. -/
theorem run_spec (gameHandler : DBHandler) {n : ℕ} (calls : List (T × PushCall X))
    (hnonneg : Nonnegative calls) {b : DBLoadBalancer T X} (hb : b.Ready n) :
    ∃ results b', b.run gameHandler calls = some (results, b') ∧ b'.Ready n ∧
      results.count true + b.queued n = b'.queued n + calls.countP fun c => c.2.dropsNull := by
  induction calls generalizing b with
  | nil => exact ⟨[], b, rfl, hb, by simp⟩
  | cons c calls ih =>
    obtain ⟨result, b₁, hcall, hready, hnull, hadded⟩ := call_spec gameHandler hb
      c.1 (hnonneg c List.mem_cons_self)
    obtain ⟨results, b', hrun, hready', hcount⟩ :=
      ih (fun d hd => hnonneg d (List.mem_cons_of_mem c hd)) hready
    refine ⟨result :: results, b', by simp [run, hcall, hrun], hready', ?_⟩
    rw [List.count_cons, List.countP_cons]
    by_cases hdata : c.2.data = none
    · obtain ⟨rfl, hresult⟩ := hnull hdata
      rw [hresult]
      cases hdrops : c.2.dropsNull <;> simp <;> omega
    · obtain ⟨hone, hresult, hkept⟩ := hadded hdata
      have hqueued := hone.queued hb.1
      simp only [hresult, hkept, beq_self_eq_true, if_true, Bool.false_eq_true, if_false]
      omega

/-- Every run of `Push` tells the truth exactly when no overload with a work id is called with null
data. -/
theorem tellsTruth_iff (gameHandler : DBHandler) {n : ℕ} {b : DBLoadBalancer T X} (hb : b.Ready n)
    {calls : List (T × PushCall X)} (hnonneg : Nonnegative calls) :
    TellsTruth gameHandler n b calls ↔ ∀ c ∈ calls, c.2.dropsNull = false := by
  obtain ⟨results, b', hrun, _, hcount⟩ := run_spec gameHandler calls hnonneg hb
  constructor
  · intro h
    have htotal := h.total results b' hrun
    have hzero : calls.countP (fun c => c.2.dropsNull) = 0 := by omega
    intro c hc
    simpa using List.countP_eq_zero.mp hzero c hc
  · intro hkept
    refine ⟨by simp [hrun], ?_, ?_⟩
    · intro before t c after results₁ b₁ result b₂ hsplit hbefore hcall
      have hmem : (t, c) ∈ calls := by simp [hsplit]
      obtain ⟨results', b₁', hrun', hready, _⟩ := run_spec gameHandler before
        (fun d hd => hnonneg d (by simp [hsplit, hd])) hb
      rw [hbefore] at hrun'
      obtain ⟨_, rfl⟩ := Prod.mk.inj (Option.some.inj hrun')
      obtain ⟨result', b₂', hcall', _, hnull, hadded⟩ := call_spec gameHandler hready t
        (hnonneg _ hmem)
      rw [hcall] at hcall'
      obtain ⟨rfl, rfl⟩ := Prod.mk.inj (Option.some.inj hcall')
      by_cases hdata : c.data = none
      · obtain ⟨rfl, hresult⟩ := hnull hdata
        have hfalse : result = false := hresult.trans (hkept _ hmem)
        refine ⟨fun h => absurd (h.symm.trans hfalse) (by decide), ?_⟩
        rintro ⟨workId, _, hone, _⟩
        omega
      · obtain ⟨hone, hresult, _⟩ := hadded hdata
        exact ⟨fun _ => hone, fun _ => hresult⟩
    · intro results' b'' hrun'
      rw [hrun] at hrun'
      obtain ⟨rfl, rfl⟩ := Prod.mk.inj (Option.some.inj hrun')
      have hzero : calls.countP (fun c => c.2.dropsNull) = 0 :=
        List.countP_eq_zero.mpr fun c hc => by simp [hkept c hc]
      omega

/-- Two services that connect. -/
def twoServices : DBLoadBalancer Unit Unit := (Init (fun _ => true) "DB" 2 construct).2

theorem tellsTruth_twoServices : TellsTruth ⟨[]⟩ 2 twoServices
    [((), .gamePush 5 1 (some ⟨0, 0, ()⟩)), ((), .gamePushData none)] :=
  (tellsTruth_iff ⟨[]⟩ (Init_ready (fun _ => true) "DB" 2 rfl) (by
    intro c hc workId hkey
    simp only [List.mem_cons, List.not_mem_nil, or_false] at hc
    rcases hc with rfl | rfl
    · simp only [PushCall.key, Option.some.injEq] at hkey
      omega
    · simp [PushCall.key] at hkey)).mpr (by decide)

/-- Null data for service 1. -/
theorem null_reported_queued : ¬∀ calls : List (Unit × PushCall Unit), Nonnegative calls →
    TellsTruth ⟨[]⟩ 2 twoServices calls := by
  intro claim
  have htruth := claim [((), .push 1 7 none ⟨[]⟩)] (by
    intro c hc workId hkey
    obtain rfl := List.mem_singleton.mp hc
    simp only [PushCall.key, Option.some.injEq] at hkey
    omega)
  exact absurd (htruth.total [true] _ rfl) (by decide)

end DBLoadBalancer

end ServerCore.Database
