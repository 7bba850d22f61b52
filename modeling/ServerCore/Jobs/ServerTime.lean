import ServerCore.Jobs.JobTimer
import Mathlib.Tactic.NormNum

namespace ServerCore.Jobs

open Framework

/-- MSVC's `clock()` after `uptime` milliseconds of the process. -/
def clock (uptime : ℕ) : Int32 := if uptime < 2 ^ 31 then Int32.ofNat uptime else -1

/-- `PocoTimeUtil::GetTick64()`, where `epochMicroseconds` is that of `sStartTime`. -/
def GetTick64 (epochMicroseconds : Int64) (uptime : ℕ) : Int64 :=
  epochMicroseconds / 1000 + (clock uptime).toInt64

/-- The item that `Reserve(tickAfter, owner, job)` pushes. -/
def JobTimer.reserved {O J : Type} (epochMicroseconds : Int64) (uptime : ℕ) (tickAfter : UInt64)
    (owner : O) (job : J) : TimerItem O J :=
  ⟨((GetTick64 epochMicroseconds uptime).toUInt64 + tickAfter).toNat, ⟨owner, job⟩⟩

/-- `Distribute(now)` fires the item if it is the only one and its owner is living. -/
def JobTimer.Due {O J : Type} (now : Int64) (item : TimerItem O J) : Prop :=
  ¬now.toUInt64.toNat < item.executeTick

/-- The milliseconds of `sStartTime`. -/
def startTick (epochMicroseconds : Int64) : ℤ := epochMicroseconds.toInt.tdiv 1000

/-- Neither call is made in the time in which `clock()` fails, or both are. -/
def SameClock (earlier later : ℕ) : Prop := later < 2 ^ 31 ∨ 2 ^ 31 ≤ earlier

/-- While `clock()` works a timer is due when its time has come, unless 1970 lies between. After
that the clock stands one millisecond before the start, and only the overflow of the unsigned sum
can make a timer due. -/
def DueDespiteClock (start : ℤ) (uptime : ℕ) (tickAfter : UInt64) (later : ℕ) : Prop :=
  if later < 2 ^ 31 then 0 ≤ start + uptime + tickAfter.toNat ∨ start + later < 0
  else
    let since := if uptime < 2 ^ 31 then uptime + 1 else 0
    let wait : ℤ := (since + tickAfter.toNat) % 2 ^ 64
    wait = 0 ∨ 2 ^ 64 ≤ (start - 1) % 2 ^ 64 + wait

theorem clock_toInt (uptime : ℕ) :
    (clock uptime).toInt = if uptime < 2 ^ 31 then (uptime : ℤ) else -1 := by
  unfold clock
  split
  · next h => exact Int32.toInt_ofNat_of_lt h
  · rfl

/-- The start time is far from the ends of the 64-bit range. -/
theorem startTick_bounds (epochMicroseconds : Int64) :
    -2 ^ 62 < startTick epochMicroseconds ∧ startTick epochMicroseconds < 2 ^ 62 := by
  have hlower := epochMicroseconds.le_toInt
  have hupper := epochMicroseconds.toInt_lt
  rw [startTick, Int.tdiv_eq_ediv]
  have hsign : Int.sign 1000 = 1 := rfl
  constructor
  · split <;> omega
  · split <;> omega

theorem GetTick64_toInt (epochMicroseconds : Int64) (uptime : ℕ) :
    (GetTick64 epochMicroseconds uptime).toInt =
      startTick epochMicroseconds + (clock uptime).toInt := by
  have hbounds := startTick_bounds epochMicroseconds
  have hdiv : (epochMicroseconds / 1000).toInt = startTick epochMicroseconds :=
    Int64.toInt_div_of_ne_right _ _ (by decide)
  have hclock := clock_toInt uptime
  rw [GetTick64, Int64.toInt_add, hdiv, Int32.toInt_toInt64]
  apply Int.bmod_eq_of_le
  · split at hclock <;> omega
  · split at hclock <;> omega

/-- Conversion to the unsigned type. -/
theorem toUInt64_toNat (n : Int64) : (n.toUInt64.toNat : ℤ) = n.toInt % 2 ^ 64 := by
  have hlt : n.toUInt64.toNat < 2 ^ 64 := n.toUInt64.toNat_lt
  have hcond : n.toInt = if 2 * n.toUInt64.toNat < 2 ^ 64 then (n.toUInt64.toNat : ℤ)
      else n.toUInt64.toNat - 2 ^ 64 := BitVec.toInt_eq_toNat_cond n.toBitVec
  split at hcond <;> omega

theorem reserved_executeTick {O J : Type} (epochMicroseconds : Int64) (uptime : ℕ)
    (tickAfter : UInt64) (owner : O) (job : J) :
    ((JobTimer.reserved epochMicroseconds uptime tickAfter owner job).executeTick : ℤ) =
      (startTick epochMicroseconds + (clock uptime).toInt + tickAfter.toNat) % 2 ^ 64 := by
  have htick := toUInt64_toNat (GetTick64 epochMicroseconds uptime)
  rw [GetTick64_toInt] at htick
  simp only [JobTimer.reserved, UInt64.toNat_add]
  omega

theorem GetTick64_le_iff (epochMicroseconds : Int64) (uptime elapsed : ℕ) :
    GetTick64 epochMicroseconds uptime ≤ GetTick64 epochMicroseconds (uptime + elapsed) ↔
      SameClock uptime (uptime + elapsed) := by
  have hearlier := clock_toInt uptime
  have hlater := clock_toInt (uptime + elapsed)
  rw [Int64.le_iff_toInt_le, GetTick64_toInt, GetTick64_toInt, SameClock]
  split at hearlier <;> split at hlater <;> omega

theorem due_iff {O J : Type} (epochMicroseconds : Int64) (uptime : ℕ) (tickAfter : UInt64)
    (owner : O) (job : J) (late : ℕ) :
    JobTimer.Due (GetTick64 epochMicroseconds (uptime + tickAfter.toNat + late))
        (JobTimer.reserved epochMicroseconds uptime tickAfter owner job) ↔
      DueDespiteClock (startTick epochMicroseconds) uptime tickAfter
        (uptime + tickAfter.toNat + late) := by
  have hdeadline := reserved_executeTick epochMicroseconds uptime tickAfter owner job
  have hnow := toUInt64_toNat (GetTick64 epochMicroseconds (uptime + tickAfter.toNat + late))
  have hbounds := startTick_bounds epochMicroseconds
  have hreserved := clock_toInt uptime
  have hlater := clock_toInt (uptime + tickAfter.toNat + late)
  rw [GetTick64_toInt] at hnow
  simp only [JobTimer.Due, DueDespiteClock]
  generalize startTick epochMicroseconds = start at *
  generalize tickAfter.toNat = d at *
  split at hlater
  · next hworks =>
    rw [if_pos hworks]
    split at hreserved <;> omega
  · next hfailed =>
    rw [if_neg hfailed]
    split at hreserved
    · next hearly =>
      rw [if_pos hearly]
      push_cast
      omega
    · next hlate =>
      rw [if_neg hlate]
      push_cast
      omega

/-- `Due` is what `Distribute` acts on. -/
theorem due_iff_distributed {O J : Type}
    {tryPop : List (TimerItem O J) → Option (TimerItem O J × List (TimerItem O J))}
    (law : LawfulTryPop TimerItem.Lt tryPop) (lock : O → Bool) (now : Int64)
    (item : TimerItem O J) :
    JobTimer.Due now item ↔ ∃ timer pushed,
      JobTimer.distribute tryPop lock now.toUInt64.toNat ⟨[item], false⟩ =
        some ⟨timer, pushed, [item]⟩ := by
  by_cases hdue : JobTimer.Due now item
  · have hall : ∀ x ∈ [item], x.executeTick ≤ now.toUInt64.toNat := by
      simpa [JobTimer.Due] using hdue
    obtain ⟨items, hrun, hperm, _⟩ := JobTimer.distribute_all_due law lock _ _ hall
    obtain rfl := List.perm_singleton.mp hperm
    exact ⟨fun _ => ⟨_, _, hrun⟩, fun _ => hdue⟩
  · have hfuture : now.toUInt64.toNat < item.executeTick := by
      simpa [JobTimer.Due] using hdue
    obtain ⟨rest, hrun, _⟩ :=
      JobTimer.distribute_none_due law lock _ [item] item List.mem_cons_self hfuture
    refine ⟨fun h => absurd h hdue, ?_⟩
    intro h
    obtain ⟨timer, pushed, hdistributed⟩ := h
    simp [hrun] at hdistributed

/-- In a process that ends after `last` milliseconds the time never runs backwards exactly when
`clock()` never fails. -/
theorem forwards_until_iff (epochMicroseconds : Int64) (last : ℕ) :
    (∀ uptime elapsed, uptime + elapsed ≤ last →
      GetTick64 epochMicroseconds uptime ≤ GetTick64 epochMicroseconds (uptime + elapsed)) ↔
      last < 2 ^ 31 := by
  constructor
  · intro h
    by_contra hlong
    have hstep := h (2 ^ 31 - 1) 1 (by omega)
    rw [GetTick64_le_iff] at hstep
    rcases hstep with hstep | hstep <;> omega
  · intro hshort uptime elapsed hle
    exact (GetTick64_le_iff _ _ _).mpr (.inl (by omega))

/-- The later call returns no less unless `clock()` fails between the two, and a timer is due when
its time has come unless `clock()` has failed. -/
theorem serverTime_iff {O J : Type} (epochMicroseconds : Int64) (uptime elapsed : ℕ)
    (tickAfter : UInt64) (late : ℕ) (owner : O) (job : J) :
    (GetTick64 epochMicroseconds uptime ≤ GetTick64 epochMicroseconds (uptime + elapsed) ↔
      SameClock uptime (uptime + elapsed)) ∧
    (JobTimer.Due (GetTick64 epochMicroseconds (uptime + tickAfter.toNat + late))
        (JobTimer.reserved epochMicroseconds uptime tickAfter owner job) ↔
      DueDespiteClock (startTick epochMicroseconds) uptime tickAfter
        (uptime + tickAfter.toNat + late)) :=
  ⟨GetTick64_le_iff epochMicroseconds uptime elapsed,
    due_iff epochMicroseconds uptime tickAfter owner job late⟩

/-- Started in November 2023, one millisecond before `clock()` fails. -/
theorem time_runs_backwards : ¬∀ (epochMicroseconds : Int64) (uptime elapsed : ℕ)
    (tickAfter : UInt64) (late : ℕ),
    GetTick64 epochMicroseconds uptime ≤ GetTick64 epochMicroseconds (uptime + elapsed) ∧
    JobTimer.Due (GetTick64 epochMicroseconds (uptime + tickAfter.toNat + late))
      (JobTimer.reserved epochMicroseconds uptime tickAfter () ()) := by
  intro claim
  obtain ⟨hforwards, _⟩ := claim 1700000000000000 2147483647 1 0 0
  exact absurd hforwards (by decide)

end ServerCore.Jobs
