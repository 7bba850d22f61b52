import Mathlib.Data.List.Perm.Basic

namespace ServerCore.Framework

/-- A concurrent queue that orders each producer separately. Elements stand in the order
of their enqueues; a dequeue serves the oldest element of a producer of its own choice. -/
abbrev ConcurrentQueue (P α : Type) : Type := List (P × α)

namespace ConcurrentQueue

variable {P α : Type}

def enqueue (q : ConcurrentQueue P α) (p : P) (x : α) : ConcurrentQueue P α := q ++ [(p, x)]

variable [DecidableEq P]

/-- The elements of one producer, oldest first. -/
def ofProducer (p : P) (q : ConcurrentQueue P α) : List α :=
  (q.filter fun e => e.1 = p).map Prod.snd

/-- Removes the oldest element of producer `p`. -/
def takeFrom (p : P) : ConcurrentQueue P α → Option (α × ConcurrentQueue P α)
  | [] => none
  | (p', x) :: q =>
      if p' = p then some (x, q) else (takeFrom p q).map fun r => (r.1, (p', x) :: r.2)

/-- A bulk dequeue that serves the listed producers one after another. -/
def takeBulk : List P → ConcurrentQueue P α → Option (List (P × α) × ConcurrentQueue P α)
  | [], q => some ([], q)
  | p :: ps, q => (takeFrom p q).bind fun r =>
      (takeBulk ps r.2).map fun r' => ((p, r.1) :: r'.1, r'.2)

@[simp] theorem ofProducer_nil (p : P) : ofProducer p ([] : ConcurrentQueue P α) = [] := rfl

@[simp] theorem ofProducer_append (p : P) (q r : ConcurrentQueue P α) :
    ofProducer p (q ++ r) = ofProducer p q ++ ofProducer p r := by
  simp [ofProducer]

theorem ofProducer_cons (p p' : P) (x : α) (q : ConcurrentQueue P α) :
    ofProducer p ((p', x) :: q) = (if p' = p then [x] else []) ++ ofProducer p q := by
  by_cases h : p' = p <;> simp [ofProducer, h]

theorem takeFrom_spec {p : P} {x : α} {q r : ConcurrentQueue P α}
    (h : takeFrom p q = some (x, r)) :
    q.Perm ((p, x) :: r) ∧
      ∀ p', ofProducer p' q = (if p = p' then [x] else []) ++ ofProducer p' r := by
  induction q generalizing r with
  | nil => simp [takeFrom] at h
  | cons e q ih =>
    obtain ⟨p₀, y⟩ := e
    by_cases hp : p₀ = p
    · subst p₀
      simp only [takeFrom, if_true, Option.some.injEq, Prod.mk.injEq] at h
      obtain ⟨rfl, rfl⟩ := h
      exact ⟨.refl _, fun p' => ofProducer_cons p' p y q⟩
    · simp only [takeFrom, hp, if_false, Option.map_eq_some_iff, Prod.mk.injEq] at h
      obtain ⟨⟨z, s⟩, hs, rfl, rfl⟩ := h
      obtain ⟨hperm, horder⟩ := ih hs
      refine ⟨(hperm.cons _).trans (.swap _ _ _), ?_⟩
      intro p'
      rw [ofProducer_cons, ofProducer_cons, horder p']
      by_cases hp' : p₀ = p'
      · subst p'
        simp [Ne.symm hp]
      · simp [hp']

/-- A bulk dequeue takes every element at most once, loses none and keeps the order of
each producer. -/
theorem takeBulk_spec {ps : List P} {q r : ConcurrentQueue P α} {xs : List (P × α)}
    (h : takeBulk ps q = some (xs, r)) :
    q.Perm (xs ++ r) ∧ ∀ p, ofProducer p q = ofProducer p xs ++ ofProducer p r := by
  induction ps generalizing q xs with
  | nil =>
    simp only [takeBulk, Option.some.injEq, Prod.mk.injEq] at h
    obtain ⟨rfl, rfl⟩ := h
    exact ⟨.refl _, fun p => rfl⟩
  | cons p ps ih =>
    obtain ⟨⟨x, q'⟩, h₁, h₂⟩ := Option.bind_eq_some_iff.mp h
    simp only [Option.map_eq_some_iff, Prod.mk.injEq] at h₂
    obtain ⟨⟨ys, r'⟩, h₂, rfl, rfl⟩ := h₂
    obtain ⟨hperm₁, horder₁⟩ := takeFrom_spec h₁
    obtain ⟨hperm₂, horder₂⟩ := ih h₂
    refine ⟨hperm₁.trans (hperm₂.cons _), ?_⟩
    intro p'
    rw [horder₁ p', horder₂ p', ofProducer_cons, List.append_assoc]

theorem takeBulk_length {ps : List P} {q r : ConcurrentQueue P α} {xs : List (P × α)}
    (h : takeBulk ps q = some (xs, r)) : xs.length = ps.length := by
  induction ps generalizing q xs with
  | nil =>
    simp only [takeBulk, Option.some.injEq, Prod.mk.injEq] at h
    simp [← h.1]
  | cons p ps ih =>
    obtain ⟨⟨x, q'⟩, _, h₂⟩ := Option.bind_eq_some_iff.mp h
    simp only [Option.map_eq_some_iff, Prod.mk.injEq] at h₂
    obtain ⟨⟨ys, r'⟩, h₂, rfl, rfl⟩ := h₂
    simp [ih h₂]

/-- A bulk dequeue can be made in two parts. -/
theorem takeBulk_append {ps qs : List P} {q r : ConcurrentQueue P α} {xs : List (P × α)}
    (h : takeBulk (ps ++ qs) q = some (xs, r)) :
    ∃ q', takeBulk ps q = some (xs.take ps.length, q') ∧
      takeBulk qs q' = some (xs.drop ps.length, r) := by
  induction ps generalizing q xs with
  | nil => exact ⟨q, rfl, h⟩
  | cons p ps ih =>
    obtain ⟨⟨x, q₁⟩, hx, h₁⟩ := Option.bind_eq_some_iff.mp h
    simp only [Option.map_eq_some_iff, Prod.mk.injEq] at h₁
    obtain ⟨⟨ys, r'⟩, h₂, rfl, rfl⟩ := h₁
    obtain ⟨q', hps, hqs⟩ := ih h₂
    exact ⟨q', by simp [takeBulk, hx, hps], by simpa using hqs⟩

/-- A bulk dequeue may serve the oldest elements of all. -/
theorem takeBulk_oldest (n : ℕ) (q : ConcurrentQueue P α) :
    takeBulk ((q.take n).map Prod.fst) q = some (q.take n, q.drop n) := by
  induction q generalizing n with
  | nil => simp [takeBulk]
  | cons e q ih =>
    cases n with
    | zero => rfl
    | succ n => simpa [takeBulk, takeFrom] using ih n

theorem mem_ofProducer {p : P} {x : α} {q : ConcurrentQueue P α} :
    x ∈ ofProducer p q ↔ (p, x) ∈ q := by
  simp [ofProducer]

theorem count_ofProducer [DecidableEq α] (p : P) (x : α) (q : ConcurrentQueue P α) :
    (ofProducer p q).count x = q.count (p, x) := by
  induction q with
  | nil => rfl
  | cons e q ih =>
    obtain ⟨p', y⟩ := e
    by_cases hp : p' = p
    · subst p'
      by_cases hy : y = x <;> simp [ofProducer_cons, hy, ih]
    · simp [ofProducer_cons, hp, ih]

/-- Elements kept in order for each producer are kept at most once. -/
theorem subperm_of_producers {q r : ConcurrentQueue P α}
    (h : ∀ p, (ofProducer p q).Sublist (ofProducer p r)) : List.Subperm q r := by
  classical
  apply List.subperm_ext_iff.mpr
  intro e _
  obtain ⟨p, x⟩ := e
  rw [← count_ofProducer, ← count_ofProducer]
  exact (h p).count_le x

end ConcurrentQueue

end ServerCore.Framework
