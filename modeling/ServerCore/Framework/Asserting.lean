import Mathlib.Data.List.Basic

namespace ServerCore.Framework

/-- A program over a state whose assertions may fail. A failure ends it in the state it has. -/
abbrev Asserting (ε σ α : Type) : Type := EStateM ε σ α

namespace Asserting

variable {ε σ α β : Type}

/-- From `s` the program returns `a` and leaves `s'`; no assertion fails. -/
def Returns (x : Asserting ε σ α) (s : σ) (a : α) (s' : σ) : Prop := x s = .ok a s'

theorem Returns.unique {x : Asserting ε σ α} {s s₁ s₂ : σ} {a b : α} (h : Returns x s a s₁)
    (k : Returns x s b s₂) : a = b ∧ s₁ = s₂ := EStateM.Result.ok.inj (h.symm.trans k)

@[simp] theorem returns_pure {a b : α} {s s' : σ} :
    Returns (pure a : Asserting ε σ α) s b s' ↔ a = b ∧ s = s' := by
  change (EStateM.Result.ok a s : EStateM.Result ε σ α) = .ok b s' ↔ _
  rw [EStateM.Result.ok.injEq]

@[simp] theorem returns_get {s s' t : σ} :
    Returns (get : Asserting ε σ σ) s t s' ↔ s = t ∧ s = s' := by
  change (EStateM.Result.ok s s : EStateM.Result ε σ σ) = .ok t s' ↔ _
  rw [EStateM.Result.ok.injEq]

@[simp] theorem returns_modify {f : σ → σ} {s s' : σ} {u : Unit} :
    Returns (modify f : Asserting ε σ Unit) s u s' ↔ f s = s' := by
  change (EStateM.Result.ok () (f s) : EStateM.Result ε σ Unit) = .ok u s' ↔ _
  simp

/-- A program returns when its parts do. -/
@[simp] theorem returns_bind {x : Asserting ε σ α} {f : α → Asserting ε σ β} {s s' : σ} {b : β} :
    Returns (x >>= f) s b s' ↔ ∃ a t, Returns x s a t ∧ Returns (f a) t b s' := by
  simp only [Returns, bind, EStateM.bind]
  cases x s with
  | ok a t => simp
  | error e t => simp

/-- What is read off an optional value without an assertion. -/
def demand (e : ε) (o : Option α) : Asserting ε σ α :=
  match o with
  | some a => pure a
  | none => throw e

@[simp] theorem returns_demand {e : ε} {o : Option α} {s s' : σ} {a : α} :
    Returns (demand e o) s a s' ↔ o = some a ∧ s = s' := by
  cases o with
  | some b => simp [demand]
  | none =>
    change (EStateM.Result.error e s : EStateM.Result ε σ α) = .ok a s' ↔ _
    simp

/-- Reading goes on with what is there. -/
theorem returns_demand_bind {e : ε} {o : Option α} {f : α → Asserting ε σ β} {s s' : σ} {b : β} :
    Returns (demand e o >>= f) s b s' ↔ ∃ a, o = some a ∧ Returns (f a) s b s' := by
  rw [returns_bind]
  constructor
  · rintro ⟨a, t, hread, hrest⟩
    obtain ⟨ho, rfl⟩ := returns_demand.mp hread
    exact ⟨a, ho, hrest⟩
  · rintro ⟨a, ho, hrest⟩
    exact ⟨a, s, returns_demand.mpr ⟨ho, rfl⟩, hrest⟩

/-- A loop returns when each round does, and keeps what each round keeps. -/
theorem Returns.forM {f : α → Asserting ε σ PUnit} {as : List α} {s s' : σ} {u : PUnit}
    (I : List α → σ → Prop) (h : Returns (as.forM f) s u s') (start : I [] s)
    (round : ∀ before a t t' v, I before t → Returns (f a) t v t' → I (before ++ [a]) t') :
    I as s' := by
  suffices hgo : ∀ rest before t, Returns (rest.forM f) t u s' → I before t → I (before ++ rest) s' by
    simpa using hgo as [] s h start
  intro rest
  induction rest with
  | nil =>
    intro before t h hI
    obtain ⟨_, rfl⟩ := returns_pure.mp h
    simpa using hI
  | cons a rest ih =>
    intro before t h hI
    obtain ⟨v, t', ha, hrest⟩ := returns_bind.mp h
    simpa using ih (before ++ [a]) t' hrest (round before a t t' v hI ha)

end Asserting

end ServerCore.Framework
