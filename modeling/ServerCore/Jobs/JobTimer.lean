import ServerCore.Framework.PriorityQueue
import Mathlib.Data.List.Pairwise

namespace ServerCore.Jobs

open Framework

structure JobData (O J : Type) where
  owner : O
  job : J
  deriving DecidableEq

/-- `executeTick` is an unsigned 64-bit number. -/
structure TimerItem (O J : Type) where
  executeTick : ℕ
  jobData : JobData O J
  deriving DecidableEq

/-- `TimerItem::operator<`. -/
def TimerItem.Lt {O J : Type} (x y : TimerItem O J) : Prop := x.executeTick < y.executeTick

structure JobTimer (O J : Type) where
  mTimerQueue : List (TimerItem O J)
  mIsDistributing : Bool
  deriving DecidableEq

/-- What one call of `Distribute` leaves behind: the timer, the items whose job it pushed to
a living owner and those whose `JobData` it deleted, in order. -/
structure Distributed (O J : Type) where
  timer : JobTimer O J
  pushed : List (TimerItem O J)
  deleted : List (TimerItem O J)
  deriving DecidableEq

namespace JobTimer

variable {O J : Type}

/-- The loop over `try_pop`: collects items until the first that is not due, which is pushed
back. The first argument bounds the iterations. -/
def collect (tryPop : List (TimerItem O J) → Option (TimerItem O J × List (TimerItem O J)))
    (now : ℕ) : ℕ → List (TimerItem O J) → Option (List (TimerItem O J) × List (TimerItem O J))
  | 0, _ => none
  | n + 1, q =>
      match tryPop q with
      | none => some ([], q)
      | some (timerItem, rest) =>
          if now < timerItem.executeTick then some ([], timerItem :: rest)
          else (collect tryPop now n rest).map fun r => (timerItem :: r.1, r.2)

/-- `Distribute(now)`, where `lock` tells which owners are still living. -/
def distribute (tryPop : List (TimerItem O J) → Option (TimerItem O J × List (TimerItem O J)))
    (lock : O → Bool) (now : ℕ) (t : JobTimer O J) : Option (Distributed O J) :=
  if t.mIsDistributing then some ⟨t, [], []⟩
  else
    (collect tryPop now (t.mTimerQueue.length + 1) t.mTimerQueue).map fun r =>
      ⟨⟨r.2, false⟩, r.1.filter fun item => lock item.jobData.owner, r.1⟩

/-- One call pushes and deletes exactly the due items, the earliest deadline first, and
leaves exactly the others. -/
def FiresWhenDue (tryPop : List (TimerItem O J) → Option (TimerItem O J × List (TimerItem O J)))
    (lock : O → Bool) (now : ℕ) (q : List (TimerItem O J)) : Prop :=
  ∃ r, distribute tryPop lock now ⟨q, false⟩ = some r ∧
    r.deleted.Perm (q.filter fun item => item.executeTick ≤ now) ∧
    r.timer.mTimerQueue.Perm (q.filter fun item => now < item.executeTick) ∧
    r.pushed.Perm (q.filter fun item => item.executeTick ≤ now ∧ lock item.jobData.owner) ∧
    r.pushed.Pairwise fun x y => x.executeTick ≤ y.executeTick

variable {tryPop : List (TimerItem O J) → Option (TimerItem O J × List (TimerItem O J))}

/-- The queue yields the latest deadline first, so one item that is not due hides all. -/
theorem collect_none_due (law : LawfulTryPop TimerItem.Lt tryPop) (now n : ℕ)
    (q : List (TimerItem O J)) (x : TimerItem O J) (hx : x ∈ q) (hfuture : now < x.executeTick) :
    ∃ rest, collect tryPop now (n + 1) q = some ([], rest) ∧ rest.Perm q := by
  obtain ⟨y, rest, hpop⟩ := law.nonempty q (List.ne_nil_of_mem hx)
  obtain ⟨hperm, hmax⟩ := law.greatest q y rest hpop
  have hy : now < y.executeTick := hfuture.trans_le (not_lt.mp (hmax x hx))
  exact ⟨y :: rest, by simp [collect, hpop, hy], hperm.symm⟩

/-- When every item is due the loop empties the queue, the latest deadline first. -/
theorem collect_all_due (law : LawfulTryPop TimerItem.Lt tryPop) (now n : ℕ)
    (q : List (TimerItem O J)) (hn : q.length < n) (hdue : ∀ x ∈ q, x.executeTick ≤ now) :
    ∃ items, collect tryPop now n q = some (items, []) ∧ items.Perm q ∧
      items.Pairwise fun x y => y.executeTick ≤ x.executeTick := by
  induction n generalizing q with
  | zero => omega
  | succ n ih =>
    by_cases hq : q = []
    · subst hq
      exact ⟨[], by simp [collect, law.empty], .refl _, .nil⟩
    obtain ⟨x, rest, hpop⟩ := law.nonempty q hq
    obtain ⟨hperm, hmax⟩ := law.greatest q x rest hpop
    have hlen := hperm.length_eq
    rw [List.length_cons] at hlen
    have hmem (y : TimerItem O J) (hy : y ∈ rest) : y ∈ q := hperm.mem_iff.mpr (by simp [hy])
    obtain ⟨items, hitems, hiperm, hsorted⟩ :=
      ih rest (by omega) fun y hy => hdue y (hmem y hy)
    have hx : ¬now < x.executeTick := not_lt.mpr (hdue x (hperm.mem_iff.mpr (by simp)))
    refine ⟨x :: items, by simp [collect, hpop, hx, hitems], (hiperm.cons x).trans hperm.symm,
      List.pairwise_cons.mpr ⟨?_, hsorted⟩⟩
    intro y hy
    exact not_lt.mp (hmax y (hmem y (hiperm.mem_iff.mp hy)))

theorem distribute_all_due (law : LawfulTryPop TimerItem.Lt tryPop) (lock : O → Bool) (now : ℕ)
    (q : List (TimerItem O J)) (hdue : ∀ x ∈ q, x.executeTick ≤ now) :
    ∃ items, distribute tryPop lock now ⟨q, false⟩ =
        some ⟨⟨[], false⟩, items.filter fun x => lock x.jobData.owner, items⟩ ∧ items.Perm q ∧
      items.Pairwise fun x y => y.executeTick ≤ x.executeTick := by
  obtain ⟨items, hitems, hperm, hsorted⟩ :=
    collect_all_due law now (q.length + 1) q (by omega) hdue
  exact ⟨items, by simp [distribute, hitems], hperm, hsorted⟩

theorem distribute_none_due (law : LawfulTryPop TimerItem.Lt tryPop) (lock : O → Bool) (now : ℕ)
    (q : List (TimerItem O J)) (x : TimerItem O J) (hx : x ∈ q) (hfuture : now < x.executeTick) :
    ∃ rest, distribute tryPop lock now ⟨q, false⟩ = some ⟨⟨rest, false⟩, [], []⟩ ∧
      rest.Perm q := by
  obtain ⟨rest, hcollect, hperm⟩ := collect_none_due law now q.length q x hx hfuture
  exact ⟨rest, by simp [distribute, hcollect], hperm⟩

/-- Items pushed latest deadline first are in deadline order only if they share one. -/
theorem same_deadline {items : List (TimerItem O J)}
    (hdown : items.Pairwise fun x y => y.executeTick ≤ x.executeTick)
    (hup : items.Pairwise fun x y => x.executeTick ≤ y.executeTick) :
    ∀ x ∈ items, ∀ y ∈ items, x.executeTick = y.executeTick := by
  have heq : (items.map TimerItem.executeTick).Pairwise Eq := by
    rw [List.pairwise_map]
    exact hdown.imp₂ (fun x y h₁ h₂ => le_antisymm h₂ h₁) hup
  have hsymm : @Std.Symm ℕ Eq := ⟨fun _ _ h => h.symm⟩
  intro x hx y hy
  have hx' := List.mem_map_of_mem (f := TimerItem.executeTick) hx
  have hy' := List.mem_map_of_mem (f := TimerItem.executeTick) hy
  exact heq.forall_of_forall (fun _ _ => rfl) hx' hy'

/-- `Distribute` does its work exactly when no item is due, or all items are due and those
with living owners share one deadline. -/
theorem firesWhenDue_iff (law : LawfulTryPop TimerItem.Lt tryPop) (lock : O → Bool) (now : ℕ)
    (q : List (TimerItem O J)) :
    FiresWhenDue tryPop lock now q ↔
      (∀ x ∈ q, now < x.executeTick) ∨
      (∀ x ∈ q, x.executeTick ≤ now) ∧
        ∀ x ∈ q, ∀ y ∈ q, lock x.jobData.owner → lock y.jobData.owner →
          x.executeTick = y.executeTick := by
  by_cases hall : ∀ x ∈ q, x.executeTick ≤ now
  · obtain ⟨items, hrun, hperm, hsorted⟩ := distribute_all_due law lock now q hall
    have hdown := hsorted.filter fun x => lock x.jobData.owner
    have live (x : TimerItem O J) :
        x ∈ items.filter (fun x => lock x.jobData.owner) ↔ x ∈ q ∧ lock x.jobData.owner := by
      rw [List.mem_filter, hperm.mem_iff]
    constructor
    · rintro ⟨r, hr, _, _, _, hup⟩
      rw [hrun] at hr
      obtain rfl := Option.some.inj hr
      have hsame := same_deadline hdown hup
      refine .inr ⟨hall, fun x hx y hy hlx hly => ?_⟩
      exact hsame x ((live x).mpr ⟨hx, hlx⟩) y ((live y).mpr ⟨hy, hly⟩)
    · intro hcond
      have hnone : q.filter (fun x => now < x.executeTick) = [] := by
        simpa [List.filter_eq_nil_iff] using hall
      have hdue : q.filter (fun x => x.executeTick ≤ now) = q := by
        simpa [List.filter_eq_self] using hall
      have hlive : q.filter (fun x => x.executeTick ≤ now ∧ lock x.jobData.owner) =
          q.filter fun x => lock x.jobData.owner :=
        List.filter_congr fun x hx => by simp [hall x hx]
      refine ⟨_, hrun, by rw [hdue]; exact hperm, by rw [hnone], ?_, ?_⟩
      · rw [hlive]
        exact hperm.filter _
      · refine List.Pairwise.imp_of_mem ?_ hdown
        intro x y hx hy _
        obtain ⟨hxq, hlx⟩ := (live x).mp hx
        obtain ⟨hyq, hly⟩ := (live y).mp hy
        rcases hcond with hfuture | ⟨_, hsame⟩
        · exact absurd (hfuture x hxq) (not_lt.mpr (hall x hxq))
        · exact (hsame x hxq y hyq hlx hly).le
  · simp only [not_forall, not_le] at hall
    obtain ⟨x, hx, hfuture⟩ := hall
    obtain ⟨rest, hrun, hperm⟩ := distribute_none_due law lock now q x hx hfuture
    constructor
    · rintro ⟨r, hr, hdel, _⟩
      rw [hrun] at hr
      obtain rfl := Option.some.inj hr
      have hnil := hdel.symm.eq_nil
      refine .inl fun y hy => ?_
      simpa using List.filter_eq_nil_iff.mp hnil y hy
    · rintro (hcond | ⟨hcond, _⟩)
      · have hnone : q.filter (fun x => x.executeTick ≤ now) = [] := by
          simpa [List.filter_eq_nil_iff] using hcond
        have hrest : q.filter (fun x => now < x.executeTick) = q := by
          simpa [List.filter_eq_self] using hcond
        have hlive : q.filter (fun x => x.executeTick ≤ now ∧ lock x.jobData.owner) = [] := by
          simp only [List.filter_eq_nil_iff, decide_eq_true_eq, not_and]
          exact fun y hy hle => absurd hle (not_le.mpr (hcond y hy))
        exact ⟨_, hrun, by rw [hnone], by rw [hrest]; exact hperm, by rw [hlive], .nil⟩
      · exact absurd (hcond x hx) (not_le.mpr hfuture)

/-- Two timers that are due together, of one owner. -/
def sameTick : List (TimerItem Bool Bool) := [⟨5, ⟨true, true⟩⟩, ⟨5, ⟨true, false⟩⟩]

theorem firesWhenDue_sameTick :
    FiresWhenDue (popGreatest TimerItem.executeTick) (fun _ => true) 7 sameTick :=
  (firesWhenDue_iff (popGreatest_lawful _) (fun _ => true) 7 sameTick).mpr (by decide)

/-- A timer that is due and one that is not. -/
def dueAndFuture : List (TimerItem Bool Bool) := [⟨1, ⟨true, true⟩⟩, ⟨10, ⟨true, false⟩⟩]

theorem dueAndFuture_not_fired : ¬∀ (lock : Bool → Bool) (now : ℕ) (q : List (TimerItem Bool Bool)),
    FiresWhenDue (popGreatest TimerItem.executeTick) lock now q := by
  intro claim
  obtain ⟨r, hr, hdel, _⟩ := claim (fun _ => true) 5 dueAndFuture
  have hrun : distribute (popGreatest TimerItem.executeTick) (fun _ => true) 5
      ⟨dueAndFuture, false⟩ = some ⟨⟨dueAndFuture.reverse, false⟩, [], []⟩ := by decide
  rw [hrun] at hr
  obtain rfl := Option.some.inj hr
  exact absurd hdel.length_eq (by decide)

end JobTimer

end ServerCore.Jobs
