import Mathlib.Data.List.TakeDrop
import Mathlib.Logic.Relation
import Mathlib.Tactic.Linarith

namespace ServerCore.Framework

open Relation

/-- Frames that begin with a header of fixed length, which says how long the frame is. -/
structure FrameFormat (α : Type) where
  header : ℕ
  size : List α → ℕ
  stable : ∀ d rest, header ≤ d.length → size (d ++ rest) = size d

namespace FrameFormat

variable {α : Type} (f : FrameFormat α) {s rest : List α} {p p' q : ℕ}

/-- The frame that begins at `p` is complete and ends at `p'`. -/
def Next (s : List α) (p p' : ℕ) : Prop :=
  p + f.header ≤ s.length ∧ p' = p + f.size (s.drop p) ∧ p' ≤ s.length

/-- A position that one reaches from the front by whole frames. -/
def Boundary (s : List α) (p : ℕ) : Prop := ReflTransGen (f.Next s) 0 p

variable {f}

theorem next_rightUnique : Relator.RightUnique (f.Next s) := by
  intro p a b ha hb
  rw [ha.2.1, hb.2.1]

theorem size_append (h : p + f.header ≤ s.length) :
    f.size ((s ++ rest).drop p) = f.size (s.drop p) := by
  rw [List.drop_append_of_le_length (by omega)]
  apply f.stable
  rw [List.length_drop]
  omega

/-- More bytes do not change a complete frame. -/
theorem Next.append (h : f.Next s p p') : f.Next (s ++ rest) p p' := by
  obtain ⟨hheader, hend, hfit⟩ := h
  have hlen : s.length ≤ (s ++ rest).length := by simp
  exact ⟨hheader.trans hlen, by rw [size_append hheader, hend], hfit.trans hlen⟩

theorem Boundary.append (h : f.Boundary s p) : f.Boundary (s ++ rest) p :=
  ReflTransGen.mono (fun _ _ (hnext : f.Next s _ _) => hnext.append) _ _ h

theorem Boundary.le_length (h : f.Boundary s p) : p ≤ s.length := by
  cases h with
  | refl => exact Nat.zero_le _
  | tail _ hnext => exact hnext.2.2

theorem reach_le (h : ReflTransGen (f.Next s) p q) : p ≤ q := by
  induction h with
  | refl => exact le_refl p
  | tail _ hnext ih =>
    have hend := hnext.2.1
    omega

/-- A frame seen from a position inside the stream. -/
theorem next_drop_iff (hq : q ≤ s.length) :
    f.Next (s.drop q) p p' ↔ f.Next s (q + p) (q + p') := by
  simp only [Next, List.length_drop, List.drop_drop]
  constructor
  · intro h
    exact ⟨by omega, by omega, by omega⟩
  · intro h
    exact ⟨by omega, by omega, by omega⟩

theorem boundary_drop_iff (hq : q ≤ s.length) :
    f.Boundary (s.drop q) p ↔ ReflTransGen (f.Next s) q (q + p) := by
  constructor
  · intro h
    have hlift : f.Next (s.drop q) ≤ fun a b => f.Next s (q + a) (q + b) :=
      fun _ _ hnext => (next_drop_iff hq).mp hnext
    exact ReflTransGen.lift (q + ·) hlift _ _ h
  · intro h
    -- no frame leads to a position before the one where it begins
    have hwalk : ∀ x, ReflTransGen (f.Next s) q x → ∃ y, x = q + y ∧ f.Boundary (s.drop q) y := by
      intro x hx
      induction hx with
      | refl => exact ⟨0, rfl, .refl⟩
      | tail _ hnext ih =>
        obtain ⟨y, rfl, hy⟩ := ih
        refine ⟨y + f.size (s.drop (q + y)), by rw [hnext.2.1, Nat.add_assoc], hy.tail ?_⟩
        rw [next_drop_iff hq, ← Nat.add_assoc, ← hnext.2.1]
        exact hnext
    obtain ⟨y, hy, hbound⟩ := hwalk _ h
    obtain rfl : p = y := by omega
    exact hbound

/-- After more bytes a boundary lies behind the old boundary `q`, or it began a frame that was
complete before. -/
theorem Boundary.append_cases (hq : f.Boundary s q) (h : f.Boundary (s ++ rest) p) :
    ReflTransGen (f.Next (s ++ rest)) q p ∨ f.Boundary s p ∧ ∃ p', f.Next s p p' := by
  have hwalk : ∀ a, ReflTransGen (f.Next s) a q → ReflTransGen (f.Next (s ++ rest)) a p →
      ReflTransGen (f.Next (s ++ rest)) q p ∨
        ReflTransGen (f.Next s) a p ∧ ∃ p', f.Next s p p' := by
    intro a ha
    induction ha using ReflTransGen.head_induction_on with
    | refl => exact .inl
    | head hnext _ ih =>
      intro hp
      rcases hp.cases_head with rfl | ⟨b, hb, hbp⟩
      · exact .inr ⟨.refl, _, hnext⟩
      · obtain rfl := next_rightUnique hnext.append hb
        rcases ih hbp with hbehind | ⟨hreach, hold⟩
        · exact .inl hbehind
        · exact .inr ⟨hreach.head hnext, hold⟩
  exact hwalk 0 hq h

/-- Where no frame is complete the boundaries end. -/
theorem Boundary.last (hq : f.Boundary s q) (hwaits : ∀ q', ¬ f.Next s q q')
    (h : f.Boundary s p) : p = q ∨ ∃ p', f.Next s p p' := by
  rcases ReflTransGen.total_of_right_unique next_rightUnique hq h with hqp | hpq
  · rcases hqp.cases_head with rfl | ⟨b, hb, _⟩
    · exact .inl rfl
    · exact absurd hb (hwaits b)
  · rcases hpq.cases_head with rfl | ⟨b, hb, _⟩
    · exact .inl rfl
    · exact .inr ⟨b, hb⟩

/-- Whole frames lead to the boundary behind them. -/
theorem boundary_flatten (frames : List (List α))
    (h : ∀ x ∈ frames, f.header ≤ x.length ∧ f.size x = x.length) (rest : List α) :
    f.Boundary (frames.flatten ++ rest) frames.flatten.length := by
  induction frames with
  | nil => exact .refl
  | cons x frames ih =>
    obtain ⟨hheader, hsize⟩ := h x (by simp)
    have hrest := ih fun y hy => h y (by simp [hy])
    rw [List.flatten_cons, List.append_assoc, List.length_append]
    have hfirst : f.Next (x ++ (frames.flatten ++ rest)) 0 x.length := by
      refine ⟨?_, ?_, ?_⟩
      · rw [List.length_append]
        omega
      · rw [List.drop_zero, f.stable x _ hheader, hsize, Nat.zero_add]
      · rw [List.length_append]
        omega
    have hdrop : (x ++ (frames.flatten ++ rest)).drop x.length = frames.flatten ++ rest :=
      List.drop_left
    rw [← hdrop, boundary_drop_iff hfirst.2.2] at hrest
    exact hrest.head hfirst

end FrameFormat

end ServerCore.Framework
