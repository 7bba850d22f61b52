import Mathlib.Data.List.Basic

namespace ServerCore.Framework

variable {σ A : Type} {next : σ → A → Option σ}

/-- Every step of a run, up to the first that is refused, satisfies `P`. -/
def Along (next : σ → A → Option σ) (P : σ → A → σ → Prop) : σ → List A → Prop
  | _, [] => True
  | s, a :: as => ∀ s', next s a = some s' → P s a s' ∧ Along next P s' as

/-- Two step relations that agree as long as an invariant holds, which one of them keeps, on runs
whose actions are all `ok`. -/
theorem along_iff {P Q : σ → A → σ → Prop} (Inv : σ → Prop) (ok : A → Prop)
    (agree : ∀ s a s', Inv s → ok a → next s a = some s' → (P s a s' ↔ Q s a s'))
    (keep : ∀ s a s', Inv s → ok a → next s a = some s' → Q s a s' → Inv s')
    {s : σ} (hs : Inv s) {as : List A} (has : ∀ a ∈ as, ok a) :
    Along next P s as ↔ Along next Q s as := by
  induction as generalizing s with
  | nil => exact Iff.rfl
  | cons a as ih =>
    obtain ⟨ha, has⟩ := List.forall_mem_cons.mp has
    constructor
    · intro h s' hnext
      obtain ⟨hP, hrest⟩ := h s' hnext
      have hQ := (agree s a s' hs ha hnext).mp hP
      exact ⟨hQ, (ih (keep s a s' hs ha hnext hQ) has).mp hrest⟩
    · intro h s' hnext
      obtain ⟨hQ, hrest⟩ := h s' hnext
      have hP := (agree s a s' hs ha hnext).mpr hQ
      exact ⟨hP, (ih (keep s a s' hs ha hnext hQ) has).mpr hrest⟩

end ServerCore.Framework
