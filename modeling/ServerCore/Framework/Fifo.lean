import Mathlib.Data.List.Basic

namespace ServerCore.Framework

/-- The operations of a bounded queue that may hold its elements at any position. -/
inductive FifoOp (α : Type)
  | push (xs : List α)
  | pop (n : ℕ)
  | compact
  | clear

variable {α σ : Type}

/-- The queue after an operation that reported success or failure. -/
def FifoOp.apply : FifoOp α → Bool → List α → List α
  | .push xs, true, q => q ++ xs
  | .pop n, true, q => q.drop n
  | .clear, _, _ => []
  | _, _, q => q

/-- Runs operations one after another, and collects what they report. -/
def runOps (step : σ → FifoOp α → σ × Bool) : σ → List (FifoOp α) → σ × List Bool
  | s, [] => (s, [])
  | s, op :: ops =>
      let first := step s op
      let rest := runOps step first.1 ops
      (rest.1, first.2 :: rest.2)

/-- The same operations on the abstract queue. -/
def replay : List α → List (FifoOp α × Bool) → List α
  | q, [] => q
  | q, (op, done) :: ops => replay (op.apply done q) ops

/-- Each operation keeps the invariant and acts on the contents as on the abstract queue. -/
structure LawfulFifo (step : σ → FifoOp α → σ × Bool) (Valid : σ → Prop)
    (contents : σ → List α) : Prop where
  valid : ∀ s op, Valid s → Valid (step s op).1
  apply : ∀ s op, Valid s → contents (step s op).1 = op.apply (step s op).2 (contents s)

theorem LawfulFifo.run {step : σ → FifoOp α → σ × Bool} {Valid : σ → Prop}
    {contents : σ → List α} (h : LawfulFifo step Valid contents) (s : σ) (hs : Valid s)
    (ops : List (FifoOp α)) : Valid (runOps step s ops).1 ∧
      contents (runOps step s ops).1 =
        replay (contents s) (ops.zip (runOps step s ops).2) := by
  induction ops generalizing s with
  | nil => exact ⟨hs, rfl⟩
  | cons op ops ih =>
    obtain ⟨hvalid, hcontents⟩ := ih (step s op).1 (h.valid s op hs)
    refine ⟨hvalid, ?_⟩
    simp only [runOps, List.zip_cons_cons, replay]
    rw [hcontents, h.apply s op hs]

end ServerCore.Framework
