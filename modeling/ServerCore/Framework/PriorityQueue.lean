import Mathlib.Data.List.Perm.Basic
import Mathlib.Algebra.Order.Group.Nat

namespace ServerCore.Framework

/-- The contract of a priority queue's `try_pop` under the comparator `lt`: it fails on the
empty queue only, and it removes an element that no held element exceeds. -/
structure LawfulTryPop {α : Type} (lt : α → α → Prop)
    (tryPop : List α → Option (α × List α)) : Prop where
  empty : tryPop [] = none
  nonempty : ∀ q, q ≠ [] → ∃ x r, tryPop q = some (x, r)
  greatest : ∀ q x r, tryPop q = some (x, r) → q.Perm (x :: r) ∧ ∀ y ∈ q, ¬lt x y

variable {α : Type}

/-- Pops elements until one of them satisfies `stop`, which is put back. The first argument bounds
the loop. -/
def popUntil (tryPop : List α → Option (α × List α)) (stop : α → Bool) :
    ℕ → List α → Option (List α × List α)
  | 0, _ => none
  | n + 1, q =>
      match tryPop q with
      | none => some ([], q)
      | some (x, rest) =>
          if stop x then some ([], x :: rest)
          else (popUntil tryPop stop n rest).map fun r => (x :: r.1, r.2)

/-- The loop splits the queue. -/
theorem popUntil_perm {lt : α → α → Prop} {tryPop : List α → Option (α × List α)}
    (law : LawfulTryPop lt tryPop) (stop : α → Bool) (n : ℕ) (q : List α) (hn : q.length < n) :
    ∃ items rest, popUntil tryPop stop n q = some (items, rest) ∧ q.Perm (items ++ rest) := by
  induction n generalizing q with
  | zero => omega
  | succ n ih =>
    by_cases hq : q = []
    · subst hq
      exact ⟨[], [], by simp [popUntil, law.empty], .refl _⟩
    obtain ⟨x, rest, hpop⟩ := law.nonempty q hq
    have hperm := (law.greatest q x rest hpop).1
    by_cases hstop : stop x
    · exact ⟨[], x :: rest, by simp [popUntil, hpop, hstop], hperm⟩
    · have hlen := hperm.length_eq
      rw [List.length_cons] at hlen
      obtain ⟨items, left, hitems, hrest⟩ := ih rest (by omega)
      refine ⟨x :: items, left, by simp [popUntil, hpop, hstop, hitems], ?_⟩
      exact hperm.trans (hrest.cons x)

/-- A loop that nothing stops empties the queue. -/
theorem popUntil_all {lt : α → α → Prop} {tryPop : List α → Option (α × List α)}
    (law : LawfulTryPop lt tryPop) (n : ℕ) (q : List α) (hn : q.length < n) :
    ∃ items, popUntil tryPop (fun _ => false) n q = some (items, []) ∧ q.Perm items := by
  induction n generalizing q with
  | zero => omega
  | succ n ih =>
    by_cases hq : q = []
    · subst hq
      exact ⟨[], by simp [popUntil, law.empty], .refl _⟩
    obtain ⟨x, rest, hpop⟩ := law.nonempty q hq
    have hperm := (law.greatest q x rest hpop).1
    have hlen := hperm.length_eq
    rw [List.length_cons] at hlen
    obtain ⟨items, hitems, hrest⟩ := ih rest (by omega)
    exact ⟨x :: items, by simp [popUntil, hpop, hitems], hperm.trans (hrest.cons x)⟩

/-- A priority queue that keeps its elements in a list and searches for the greatest key. -/
def popGreatest (key : α → ℕ) : List α → Option (α × List α)
  | [] => none
  | x :: q =>
      match popGreatest key q with
      | none => some (x, [])
      | some (y, r) => if key x < key y then some (y, x :: r) else some (x, y :: r)

theorem popGreatest_lawful (key : α → ℕ) :
    LawfulTryPop (fun x y => key x < key y) (popGreatest key) := by
  have spec (q : List α) : (q = [] ∧ popGreatest key q = none) ∨
      ∃ x r, popGreatest key q = some (x, r) ∧ q.Perm (x :: r) ∧ ∀ y ∈ q, key y ≤ key x := by
    induction q with
    | nil => exact .inl ⟨rfl, rfl⟩
    | cons x q ih =>
      apply Or.inr
      rcases ih with ⟨rfl, hnone⟩ | ⟨y, r, hsome, hperm, hle⟩
      · exact ⟨x, [], by simp [popGreatest], .refl _, by simp⟩
      · by_cases hxy : key x < key y
        · refine ⟨y, x :: r, by simp [popGreatest, hsome, hxy],
            (hperm.cons x).trans (.swap _ _ _), ?_⟩
          simpa using ⟨hxy.le, hle⟩
        · refine ⟨x, y :: r, by simp [popGreatest, hsome, hxy], hperm.cons x, ?_⟩
          have hall : ∀ z ∈ q, key z ≤ key x := fun z hz => (hle z hz).trans (not_lt.mp hxy)
          simpa using hall
  constructor
  · rfl
  · intro q hq
    rcases spec q with ⟨hnil, _⟩ | ⟨x, r, hsome, _⟩
    · exact absurd hnil hq
    · exact ⟨x, r, hsome⟩
  · intro q x r hpop
    rcases spec q with ⟨_, hnone⟩ | ⟨x', r', hsome, hperm, hle⟩
    · rw [hnone] at hpop
      cases hpop
    · rw [hsome] at hpop
      obtain ⟨rfl, rfl⟩ : x' = x ∧ r' = r := by simpa using hpop
      exact ⟨hperm, fun y hy => not_lt.mpr (hle y hy)⟩

end ServerCore.Framework
