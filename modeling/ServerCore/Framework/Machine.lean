import Mathlib.Algebra.BigOperators.Group.Finset.Basic
import Mathlib.Algebra.Order.BigOperators.Group.Finset
import Mathlib.Data.Fintype.BigOperators
import Mathlib.Tactic.Ring

namespace ServerCore.Framework

/-- Threads with call frames over one shared memory. A step replaces the top frame of
one thread by a list of frames: none to return, one to go on, two to call. -/
structure Machine (T σ F C : Type) where
  enter : σ → (T → List F) → T → C → Option (σ × F)
  step : σ → T → F → C → Option (σ × List F)
  env : σ → C → Option σ

structure Conf (T σ F : Type) where
  mem : σ
  frames : T → List F

inductive Action (T C : Type) where
  | enter (t : T) (c : C)
  | step (t : T) (c : C)
  | env (c : C)
  deriving DecidableEq

namespace Machine

variable {T σ F C : Type}

/-- One atomic step of one thread, a fresh call by a thread, or an outside event. -/
def next [DecidableEq T] (m : Machine T σ F C) (s : Conf T σ F) : Action T C → Option (Conf T σ F)
  | .enter t c => (m.enter s.mem s.frames t c).map fun r =>
      ⟨r.1, Function.update s.frames t (r.2 :: s.frames t)⟩
  | .step t c =>
      match s.frames t with
      | [] => none
      | f :: fs => (m.step s.mem t f c).map fun r =>
          ⟨r.1, Function.update s.frames t (r.2 ++ fs)⟩
  | .env c => (m.env s.mem c).map fun mem => ⟨mem, s.frames⟩

/-- States reached from `s₀` by actions that all satisfy `ok`. -/
inductive Reach [DecidableEq T] (m : Machine T σ F C) (ok : Conf T σ F → Action T C → Prop)
    (s₀ : Conf T σ F) : Conf T σ F → Prop where
  | start : Reach m ok s₀ s₀
  | next {s s' : Conf T σ F} {a : Action T C} : Reach m ok s₀ s → ok s a →
      m.next s a = some s' → Reach m ok s₀ s'

/-- Runs a list of actions, stopping at the first that is refused. -/
def run [DecidableEq T] (m : Machine T σ F C) : Conf T σ F → List (Action T C) → Option (Conf T σ F)
  | s, [] => some s
  | s, a :: as => (m.next s a).bind fun s' => m.run s' as

variable [DecidableEq T]

theorem Reach.mono {m : Machine T σ F C} {ok ok' : Conf T σ F → Action T C → Prop}
    {s₀ s : Conf T σ F} (h : m.Reach ok s₀ s) (hok : ∀ s a, ok s a → ok' s a) :
    m.Reach ok' s₀ s := by
  induction h with
  | start => exact .start
  | next _ ha hs ih => exact .next ih (hok _ _ ha) hs

theorem Reach.trans {m : Machine T σ F C} {ok : Conf T σ F → Action T C → Prop}
    {s₀ s₁ s₂ : Conf T σ F} (h : m.Reach ok s₀ s₁) (k : m.Reach ok s₁ s₂) :
    m.Reach ok s₀ s₂ := by
  induction k with
  | start => exact h
  | next _ ha hs ih => exact .next ih ha hs

theorem reach_of_run (m : Machine T σ F C) (s₀ : Conf T σ F) (as : List (Action T C))
    {s : Conf T σ F} (h : m.run s₀ as = some s) : m.Reach (fun _ _ => True) s₀ s := by
  induction as generalizing s₀ with
  | nil =>
    have e : s₀ = s := by simpa [run] using h
    exact e ▸ .start
  | cons a as ih =>
    obtain ⟨s₁, h₁, h₂⟩ := Option.bind_eq_some_iff.mp h
    have first : m.Reach (fun _ _ => True) s₀ s₁ := .next .start trivial h₁
    exact first.trans (ih s₁ h₂)

/-- The state in which a list of actions ends. -/
def final (m : Machine T σ F C) (s₀ : Conf T σ F) (as : List (Action T C))
    (h : (m.run s₀ as).isSome) : Conf T σ F := (m.run s₀ as).get h

theorem reach_final (m : Machine T σ F C) (s₀ : Conf T σ F) (as : List (Action T C))
    (h : (m.run s₀ as).isSome) : m.Reach (fun _ _ => True) s₀ (m.final s₀ as h) :=
  reach_of_run m s₀ as (Option.some_get h).symm

/-- Runs a list of actions, stopping at the first that `ok` or the machine refuses. -/
def runChecked (m : Machine T σ F C) (ok : Conf T σ F → Action T C → Bool) :
    Conf T σ F → List (Action T C) → Option (Conf T σ F)
  | s, [] => some s
  | s, a :: as => if ok s a then (m.next s a).bind fun s' => m.runChecked ok s' as else none

def finalChecked (m : Machine T σ F C) (ok : Conf T σ F → Action T C → Bool)
    (s₀ : Conf T σ F) (as : List (Action T C)) (h : (m.runChecked ok s₀ as).isSome) :
    Conf T σ F := (m.runChecked ok s₀ as).get h

/-- An assertion that every allowed step keeps holds in every reached state. -/
theorem Reach.invariant {m : Machine T σ F C} {ok : Conf T σ F → Action T C → Prop}
    {s₀ s : Conf T σ F} (P : Conf T σ F → Prop) (h : m.Reach ok s₀ s) (start : P s₀)
    (keep : ∀ s a s', m.Reach ok s₀ s → P s → ok s a → m.next s a = some s' → P s') : P s := by
  induction h with
  | start => exact start
  | next hr ha hs ih => exact keep _ _ _ hr ih ha hs

/-- A run is simulated along `abs` when each of its steps is matched by a run, that may be empty. -/
theorem Reach.simulation {T' σ' F' C' : Type} [DecidableEq T'] {m : Machine T σ F C}
    {m' : Machine T' σ' F' C'} {ok : Conf T σ F → Action T C → Prop}
    {ok' : Conf T' σ' F' → Action T' C' → Prop} {s₀ s : Conf T σ F}
    (abs : Conf T σ F → Conf T' σ' F') (h : m.Reach ok s₀ s)
    (step : ∀ s a s', m.Reach ok s₀ s → ok s a → m.next s a = some s' →
      m'.Reach ok' (abs s) (abs s')) :
    m'.Reach ok' (abs s₀) (abs s) := by
  induction h with
  | start => exact .start
  | next hr ha hs ih =>
    apply ih.trans
    exact step _ _ _ hr ha hs

/-- Thread `t` gets to `Q` when it runs alone, whatever the choices `ok` allows. -/
inductive Leads (m : Machine T σ F C) (ok : Conf T σ F → Action T C → Prop) (t : T)
    (Q : Conf T σ F → Prop) : Conf T σ F → Prop where
  | here {s : Conf T σ F} : Q s → Leads m ok t Q s
  | step {s s' : Conf T σ F} {c : C} : ok s (.step t c) → m.next s (.step t c) = some s' →
      (∀ c s', ok s (.step t c) → m.next s (.step t c) = some s' → Leads m ok t Q s') →
      Leads m ok t Q s

section Leads

variable {m : Machine T σ F C} {ok : Conf T σ F → Action T C → Prop} {t : T}
  {Q : Conf T σ F → Prop} {s : Conf T σ F}

/-- A thread gets somewhere when until then it can go on and each step leaves it less to do. -/
theorem leads_until (P : Conf T σ F → Prop) (effort : Conf T σ F → ℕ)
    (progress : ∀ s, P s → Q s ∨ ∃ c s', ok s (.step t c) ∧ m.next s (.step t c) = some s')
    (keep : ∀ s c s', P s → ¬Q s → ok s (.step t c) → m.next s (.step t c) = some s' →
      P s' ∧ effort s' < effort s) (h : P s) : m.Leads ok t Q s := by
  induction hn : effort s using Nat.strong_induction_on generalizing s with
  | _ n ih =>
    subst hn
    by_cases hQ : Q s
    · exact .here hQ
    · obtain ⟨c, s', hc, hs'⟩ := (progress s h).resolve_left hQ
      refine .step hc hs' ?_
      intro c s' hc hs'
      obtain ⟨hP, hlt⟩ := keep s c s' h hQ hc hs'
      exact ih _ hlt hP rfl

/-- A thread gets somewhere when it can always go on and each step leaves it less to do. -/
theorem leads_of_effort (P : Conf T σ F → Prop) (effort : Conf T σ F → ℕ)
    (progress : ∀ s, P s → Q s ∨ ∃ c s', ok s (.step t c) ∧ m.next s (.step t c) = some s')
    (keep : ∀ s c s', P s → ok s (.step t c) → m.next s (.step t c) = some s' →
      P s' ∧ effort s' < effort s) (h : P s) : m.Leads ok t Q s :=
  leads_until P effort progress (fun s c s' hP _ => keep s c s' hP) h

theorem Leads.reach (h : m.Leads ok t Q s) : ∃ s', m.Reach ok s s' ∧ Q s' := by
  induction h with
  | here hQ => exact ⟨_, .start, hQ⟩
  | step hc hs' _ ih =>
    obtain ⟨s', hr, hQ⟩ := ih _ _ hc hs'
    exact ⟨s', (Reach.next .start hc hs').trans hr, hQ⟩

end Leads

/-- States reached from `s₀`, each with what `log` records of the actions on the way. -/
inductive Logged {E : Type} (m : Machine T σ F C) (ok : Conf T σ F → Action T C → Prop)
    (log : Conf T σ F → Action T C → List E) (s₀ : Conf T σ F) : Conf T σ F → List E → Prop where
  | start : Logged m ok log s₀ s₀ []
  | next {s s' : Conf T σ F} {a : Action T C} {es : List E} : Logged m ok log s₀ s es → ok s a →
      m.next s a = some s' → Logged m ok log s₀ s' (es ++ log s a)

section Logged

variable {E : Type} {m : Machine T σ F C} {ok : Conf T σ F → Action T C → Prop}
  {log : Conf T σ F → Action T C → List E} {s₀ s : Conf T σ F} {es : List E}

theorem Logged.reach (h : m.Logged ok log s₀ s es) : m.Reach ok s₀ s := by
  induction h with
  | start => exact .start
  | next _ ha hs ih => exact .next ih ha hs

/-- An assertion about state and log that every allowed step keeps. -/
theorem Logged.invariant (P : Conf T σ F → List E → Prop) (h : m.Logged ok log s₀ s es)
    (start : P s₀ [])
    (keep : ∀ s a s' es, m.Logged ok log s₀ s es → P s es → ok s a → m.next s a = some s' →
      P s' (es ++ log s a)) : P s es := by
  induction h with
  | start => exact start
  | next hl ha hs ih => exact keep _ _ _ _ hl ih ha hs

theorem Logged.mono {ok' : Conf T σ F → Action T C → Prop} (h : m.Logged ok log s₀ s es)
    (hok : ∀ s a, ok s a → ok' s a) : m.Logged ok' log s₀ s es := by
  induction h with
  | start => exact .start
  | next _ ha hs ih => exact .next ih (hok _ _ ha) hs

theorem Logged.trans {s₁ : Conf T σ F} {es₁ : List E} (h : m.Logged ok log s₀ s₁ es₁)
    (k : m.Logged ok log s₁ s es) : m.Logged ok log s₀ s (es₁ ++ es) := by
  induction k with
  | start => simpa using h
  | next _ ha hs ih =>
    rw [← List.append_assoc]
    exact .next ih ha hs

end Logged

/-- In the log every `e'` comes after an `e`. -/
def Precedes {E : Type} (e e' : E) (log : List E) : Prop :=
  ∀ before after, log = before ++ e' :: after → e ∈ before

/-- An entry of a log that has grown by `d` is that last one, or an entry of the log before. -/
theorem mem_grown {E : Type} {log before after : List E} {d e : E}
    (h : log ++ [d] = before ++ e :: after) :
    log = before ∧ d = e ∨ ∃ rest, log = before ++ e :: rest := by
  rcases List.eq_nil_or_concat after with rfl | ⟨rest, last, rfl⟩
  · obtain ⟨hlog, hlast⟩ := List.append_inj' h rfl
    exact .inl ⟨hlog, List.singleton_inj.mp hlast⟩
  · rw [List.concat_eq_append, ← List.cons_append, ← List.append_assoc] at h
    exact .inr ⟨rest, (List.append_inj' h rfl).1⟩

theorem Precedes.append {E : Type} {e e' d : E} {log : List E} (h : Precedes e e' log)
    (hd : d = e' → e ∈ log) : Precedes e e' (log ++ [d]) := by
  intro before after heq
  rcases mem_grown heq with ⟨rfl, hlast⟩ | ⟨rest, hlog⟩
  · exact hd hlast
  · exact h before rest hlog

theorem Precedes.mem {E : Type} {e e' : E} {log : List E} (h : Precedes e e' log)
    (he : e' ∈ log) : e ∈ log := by
  obtain ⟨before, after, rfl⟩ := List.append_of_mem he
  exact List.mem_append_left _ (h before after rfl)

/-- What `log` records of a run. -/
def record {E : Type} (m : Machine T σ F C) (log : Conf T σ F → Action T C → List E) :
    Conf T σ F → List (Action T C) → List E
  | _, [] => []
  | s, a :: as =>
      match m.next s a with
      | none => []
      | some s' => log s a ++ m.record log s' as

theorem logged_of_runChecked {E : Type} (m : Machine T σ F C)
    (ok : Conf T σ F → Action T C → Bool) (log : Conf T σ F → Action T C → List E)
    (s₀ : Conf T σ F) (as : List (Action T C)) {s : Conf T σ F}
    (h : m.runChecked ok s₀ as = some s) :
    m.Logged (fun s a => ok s a = true) log s₀ s (m.record log s₀ as) := by
  induction as generalizing s₀ with
  | nil =>
    have e : s₀ = s := by simpa [runChecked] using h
    exact e ▸ .start
  | cons a as ih =>
    rw [runChecked] at h
    split at h
    · next hok =>
      obtain ⟨s₁, h₁, h₂⟩ := Option.bind_eq_some_iff.mp h
      have hfirst : m.Logged (fun s a => ok s a = true) log s₀ s₁ (log s₀ a) :=
        .next (.start) hok h₁
      simp only [record, h₁]
      exact hfirst.trans (ih s₁ h₂)
    · simp at h

theorem logged_finalChecked {E : Type} (m : Machine T σ F C)
    (ok : Conf T σ F → Action T C → Bool) (log : Conf T σ F → Action T C → List E)
    (s₀ : Conf T σ F) (as : List (Action T C)) (h : (m.runChecked ok s₀ as).isSome) :
    m.Logged (fun s a => ok s a = true) log s₀ (m.finalChecked ok s₀ as h)
      (m.record log s₀ as) :=
  logged_of_runChecked m ok log s₀ as (Option.some_get h).symm

theorem reach_of_runChecked (m : Machine T σ F C) (ok : Conf T σ F → Action T C → Bool)
    (s₀ : Conf T σ F) (as : List (Action T C)) {s : Conf T σ F}
    (h : m.runChecked ok s₀ as = some s) : m.Reach (fun s a => ok s a = true) s₀ s :=
  (logged_of_runChecked m ok (fun _ _ => ([] : List Unit)) s₀ as h).reach

theorem reach_finalChecked (m : Machine T σ F C) (ok : Conf T σ F → Action T C → Bool)
    (s₀ : Conf T σ F) (as : List (Action T C)) (h : (m.runChecked ok s₀ as).isSome) :
    m.Reach (fun s a => ok s a = true) s₀ (m.finalChecked ok s₀ as h) :=
  reach_of_runChecked m ok s₀ as (Option.some_get h).symm

/-- All that one step can do. -/
theorem next_cases {m : Machine T σ F C} {s s' : Conf T σ F} {a : Action T C}
    (h : m.next s a = some s') :
    (∃ t c mem f, a = .enter t c ∧ m.enter s.mem s.frames t c = some (mem, f) ∧
      s' = ⟨mem, Function.update s.frames t (f :: s.frames t)⟩) ∨
    (∃ t c f fs mem new, a = .step t c ∧ s.frames t = f :: fs ∧
      m.step s.mem t f c = some (mem, new) ∧
      s' = ⟨mem, Function.update s.frames t (new ++ fs)⟩) ∨
    (∃ c mem, a = .env c ∧ m.env s.mem c = some mem ∧ s' = ⟨mem, s.frames⟩) := by
  cases a with
  | enter t c =>
    obtain ⟨⟨mem, f⟩, hr, rfl⟩ := Option.map_eq_some_iff.mp h
    exact .inl ⟨t, c, mem, f, rfl, hr, rfl⟩
  | step t c =>
    cases hs : s.frames t with
    | nil => simp [next, hs] at h
    | cons f fs =>
      rw [next, hs] at h
      obtain ⟨⟨mem, new⟩, hr, rfl⟩ := Option.map_eq_some_iff.mp h
      exact .inr (.inl ⟨t, c, f, fs, mem, new, rfl, hs, hr, rfl⟩)
  | env c =>
    obtain ⟨mem, hr, rfl⟩ := Option.map_eq_some_iff.mp h
    exact .inr (.inr ⟨c, mem, rfl, hr, rfl⟩)

/-- A thread can go on when its top frame can. -/
theorem next_of_isSome {m : Machine T σ F C} {s : Conf T σ F} {t : T} {f : F} {fs : List F} {c : C}
    (hs : s.frames t = f :: fs) (h : (m.step s.mem t f c).isSome) :
    ∃ s', m.next s (.step t c) = some s' := by
  obtain ⟨r, hr⟩ := Option.isSome_iff_exists.mp h
  refine ⟨⟨r.1, Function.update s.frames t (r.2 ++ fs)⟩, ?_⟩
  simp only [next, hs, hr, Option.map_some]

/-- A step of thread `t` replaces its top frame. -/
theorem next_step_cases {m : Machine T σ F C} {s s' : Conf T σ F} {t : T} {c : C}
    (h : m.next s (.step t c) = some s') :
    ∃ f fs mem new, s.frames t = f :: fs ∧ m.step s.mem t f c = some (mem, new) ∧
      s' = ⟨mem, Function.update s.frames t (new ++ fs)⟩ := by
  rcases next_cases h with ⟨_, _, _, _, ha, _⟩ | ⟨t', c', f, fs, mem, new, ha, hs, he, heq⟩ |
    ⟨_, _, ha, _⟩
  · exact nomatch ha
  · obtain ⟨rfl, rfl⟩ := Action.step.inj ha
    exact ⟨f, fs, mem, new, hs, he, heq⟩
  · exact nomatch ha

/-- Frames below the top of a stack satisfy `P` when every call leaves such a caller behind. -/
theorem suspended_next {m : Machine T σ F C} {P : F → Prop} {s s' : Conf T σ F} {a : Action T C}
    (step : ∀ mem t f c mem' new, m.step mem t f c = some (mem', new) → ∀ g ∈ new.tail, P g)
    (enter : ∀ mem fr t c r, m.enter mem fr t c = some r → ∀ f ∈ fr t, f ∈ (fr t).tail ∨ P f)
    (h : m.next s a = some s') (keep : ∀ t, ∀ g ∈ (s.frames t).tail, P g) :
    ∀ t, ∀ g ∈ (s'.frames t).tail, P g := by
  intro u g hg
  rcases next_cases h with ⟨t, c, mem, f, rfl, he, rfl⟩ |
    ⟨t, c, f, fs, mem, new, rfl, hs, he, rfl⟩ | ⟨c, mem, rfl, he, rfl⟩
  · by_cases hu : u = t
    · subst u
      simp only [Function.update_self, List.tail_cons] at hg
      exact (enter _ _ _ _ _ he g hg).elim (keep t g) id
    · simp only [Function.update_of_ne hu] at hg
      exact keep u g hg
  · by_cases hu : u = t
    · subst u
      have below : ∀ g ∈ fs, P g := by simpa [hs] using keep t
      simp only [Function.update_self] at hg
      cases new with
      | nil => exact below g (List.mem_of_mem_tail hg)
      | cons f' new =>
        simp only [List.cons_append, List.tail_cons, List.mem_append] at hg
        exact hg.elim (step _ _ _ _ _ _ he g) (below g)
    · simp only [Function.update_of_ne hu] at hg
      exact keep u g hg
  · exact keep u g hg

end Machine

/-- Sum of a measure over the frames of one stack. -/
def stackWeight {F : Type} (w : F → ℕ) (fs : List F) : ℕ := (fs.map w).sum

@[simp] theorem stackWeight_nil {F : Type} (w : F → ℕ) : stackWeight w [] = 0 := rfl

@[simp] theorem stackWeight_cons {F : Type} (w : F → ℕ) (f : F) (fs : List F) :
    stackWeight w (f :: fs) = w f + stackWeight w fs := by
  simp [stackWeight]

@[simp] theorem stackWeight_append {F : Type} (w : F → ℕ) (fs gs : List F) :
    stackWeight w (fs ++ gs) = stackWeight w fs + stackWeight w gs := by
  simp [stackWeight]

theorem stackWeight_erase {F : Type} [DecidableEq F] (w : F → ℕ) {f : F} {fs : List F}
    (h : f ∈ fs) : w f + stackWeight w (fs.erase f) = stackWeight w fs :=
  List.sum_map_erase w h

theorem stackWeight_eq_length {F : Type} {w : F → ℕ} {fs : List F} (h : ∀ f ∈ fs, w f = 1) :
    stackWeight w fs = fs.length := by
  rw [stackWeight, List.map_congr_left h, List.map_const', List.sum_replicate_nat, Nat.mul_one]

theorem stackWeight_count {F : Type} [DecidableEq F] (g : F) (fs : List F) :
    stackWeight (fun f => if f = g then 1 else 0) fs = fs.count g := by
  induction fs with
  | nil => rfl
  | cons f fs ih =>
    rw [stackWeight_cons, ih, List.count_cons, Nat.add_comm]
    simp only [beq_iff_eq]

theorem le_stackWeight {F : Type} (w : F → ℕ) {f : F} {fs : List F} (h : f ∈ fs) :
    w f ≤ stackWeight w fs :=
  List.single_le_sum (fun _ _ => Nat.zero_le _) _ (List.mem_map_of_mem h)

theorem stackWeight_mono {F : Type} {w w' : F → ℕ} (h : ∀ f, w f ≤ w' f) (fs : List F) :
    stackWeight w fs ≤ stackWeight w' fs := by
  induction fs with
  | nil => simp
  | cons f fs ih =>
    have hf := h f
    simp only [stackWeight_cons]
    omega

theorem stackWeight_eq_zero {F : Type} {w : F → ℕ} {fs : List F} (h : ∀ f ∈ fs, w f = 0) :
    stackWeight w fs = 0 := by
  simpa [stackWeight, List.sum_eq_zero_iff_forall_eq_nat] using h

section Weight

/-- Changing one entry of a table changes a sum over it by that entry alone. -/
theorem sum_update {I A : Type} [Fintype I] [DecidableEq I] (g : A → ℕ) (h : I → A) (i : I)
    (a : A) : ∑ j, g (Function.update h i a j) + g (h i) = ∑ j, g (h j) + g a := by
  have e : (fun j => g (Function.update h i a j)) =
      Function.update (fun j => g (h j)) i (g a) := by
    funext j
    by_cases hj : j = i
    · subst j; simp
    · simp [hj]
  have after : ∑ j, g (Function.update h i a j) = g a + ∑ j ∈ Finset.univ \ {i}, g (h j) := by
    rw [e, Finset.sum_update_of_mem (Finset.mem_univ i)]
  have before : ∑ j, g (h j) = g (h i) + ∑ j ∈ Finset.univ \ {i}, g (h j) :=
    Finset.sum_eq_add_sum_sdiff_singleton_of_mem (Finset.mem_univ i) _
  omega

/-- Two different entries have a joint share in the sum. -/
theorem sum_two {I A : Type} [Fintype I] [DecidableEq I] (g : A → ℕ) (h : I → A) {i j : I}
    (hij : i ≠ j) : g (h i) + g (h j) ≤ ∑ k, g (h k) := by
  have hsub : ({i, j} : Finset I) ⊆ Finset.univ := Finset.subset_univ _
  have hle := Finset.sum_le_sum_of_subset (f := fun k => g (h k)) hsub
  rwa [Finset.sum_pair hij] at hle

theorem single_le_sum {I A : Type} [Fintype I] (g : A → ℕ) (h : I → A) (i : I) :
    g (h i) ≤ ∑ k, g (h k) :=
  Finset.single_le_sum (f := fun k => g (h k)) (fun _ _ => Nat.zero_le _) (Finset.mem_univ i)

variable {T F : Type} [Fintype T]

/-- Sum of a measure over the frames of all threads. -/
def weight (w : F → ℕ) (frames : T → List F) : ℕ := ∑ t, stackWeight w (frames t)

theorem le_weight (w : F → ℕ) (frames : T → List F) (t : T) :
    stackWeight w (frames t) ≤ weight w frames :=
  single_le_sum (stackWeight w) frames t

theorem weight_mono {w w' : F → ℕ} (h : ∀ f, w f ≤ w' f) (frames : T → List F) :
    weight w frames ≤ weight w' frames :=
  Finset.sum_le_sum fun t _ => stackWeight_mono h (frames t)

theorem weight_add (w v : F → ℕ) (frames : T → List F) :
    weight (fun f => w f + v f) frames = weight w frames + weight v frames := by
  simp only [weight, stackWeight, List.sum_map_add, Finset.sum_add_distrib]

theorem weight_eq_zero (w : F → ℕ) (frames : T → List F) :
    weight w frames = 0 ↔ ∀ t, ∀ f ∈ frames t, w f = 0 := by
  simp [weight, stackWeight, List.sum_eq_zero_iff_forall_eq_nat]

@[simp] theorem weight_idle (w : F → ℕ) : weight w (fun _ : T => []) = 0 := by
  simp [weight]

variable [DecidableEq T]

/-- Only the changed stack counts for the change of the sum. -/
theorem weight_update (w : F → ℕ) (frames : T → List F) (t : T) (fs : List F) :
    weight w (Function.update frames t fs) + stackWeight w (frames t) =
      weight w frames + stackWeight w fs :=
  sum_update (stackWeight w) frames t fs

/-- Replacing the top of a stack replaces its weight. -/
theorem weight_stack (w : F → ℕ) {frames : T → List F} {t : T} {old fs : List F}
    (hs : frames t = old ++ fs) (new : List F) :
    weight w (Function.update frames t (new ++ fs)) + stackWeight w old =
      weight w frames + stackWeight w new := by
  have hsum := weight_update w frames t (new ++ fs)
  rw [hs, stackWeight_append, stackWeight_append] at hsum
  omega

/-- A step replaces the weight of the top frame. -/
theorem weight_step (w : F → ℕ) {frames : T → List F} {t : T} {f : F} {fs : List F}
    (hs : frames t = f :: fs) (new : List F) :
    weight w (Function.update frames t (new ++ fs)) + w f =
      weight w frames + stackWeight w new := by
  have hsum := weight_stack w (hs.trans List.singleton_append.symm) new
  rwa [stackWeight_cons, stackWeight_nil, Nat.add_zero] at hsum

theorem weight_enter (w : F → ℕ) (frames : T → List F) (t : T) (f : F) :
    weight w (Function.update frames t (f :: frames t)) = weight w frames + w f := by
  have hsum := weight_update w frames t (f :: frames t)
  rw [stackWeight_cons] at hsum
  omega

/-- Frames that weigh nothing may take each other's place. -/
theorem weight_replace {w : F → ℕ} {frames : T → List F} {t : T} {f : F} {fs new : List F}
    (hs : frames t = f :: fs) (hf : w f = 0) (hnew : ∀ g ∈ new, w g = 0) :
    weight w (Function.update frames t (new ++ fs)) = weight w frames := by
  have hsum := weight_step w hs new
  rwa [hf, stackWeight_eq_zero hnew, Nat.add_zero, Nat.add_zero] at hsum

theorem weight_push {w : F → ℕ} (frames : T → List F) (t : T) {f : F} (hf : w f = 0) :
    weight w (Function.update frames t (f :: frames t)) = weight w frames := by
  rw [weight_enter, hf, Nat.add_zero]

/-- Frames of different threads have a joint share in the sum. -/
theorem weight_two (w : F → ℕ) (frames : T → List F) {t u : T} (htu : t ≠ u) :
    stackWeight w (frames t) + stackWeight w (frames u) ≤ weight w frames :=
  sum_two (stackWeight w) frames htu

omit [DecidableEq T] in
theorem top_le_weight (w : F → ℕ) {frames : T → List F} {t : T} {f : F} {fs : List F}
    (hs : frames t = f :: fs) : w f ≤ weight w frames := by
  have h := le_weight w frames t
  simp only [hs, stackWeight_cons] at h
  omega

/-- A frame of thread `u` other than the top frame of `t`, whose stack is that frame on `fs`. -/
def Other (frames : T → List F) (t : T) (fs : List F) (u : T) (g : F) : Prop :=
  u = t ∧ g ∈ fs ∨ u ≠ t ∧ g ∈ frames u

omit [Fintype T] [DecidableEq T] in
theorem Other.mem_append {frames : T → List F} {t u : T} {g : F} {old fs : List F}
    (hs : frames t = old ++ fs) (h : Other frames t fs u g) : g ∈ frames u := by
  rcases h with ⟨rfl, hg⟩ | ⟨_, hg⟩
  · rw [hs]
    exact List.mem_append_right old hg
  · exact hg

omit [Fintype T] [DecidableEq T] in
theorem Other.mem {frames : T → List F} {t u : T} {f g : F} {fs : List F}
    (hs : frames t = f :: fs) (h : Other frames t fs u g) : g ∈ frames u :=
  h.mem_append (hs.trans List.singleton_append.symm)

omit [Fintype T] [DecidableEq T] in
theorem other_of_ne {frames : T → List F} {t u : T} {f g : F} {fs : List F}
    (hs : frames t = f :: fs) (hg : g ∈ frames u) (hne : g ≠ f) : Other frames t fs u g := by
  by_cases hu : u = t
  · subst hu
    refine .inl ⟨rfl, ?_⟩
    simpa [hs, hne] using hg
  · exact .inr ⟨hu, hg⟩

omit [Fintype T] in
theorem Other.update {frames : T → List F} {t u : T} {g : F} {fs : List F}
    (h : Other frames t fs u g) (new : List F) :
    g ∈ Function.update frames t (new ++ fs) u := by
  rcases h with ⟨rfl, hg⟩ | ⟨hu, hg⟩
  · rw [Function.update_self]
    exact List.mem_append_right new hg
  · rw [Function.update_of_ne hu]
    exact hg

/-- The top frame and any other frame have a joint share in the sum. -/
theorem Other.weight {frames : T → List F} {t u : T} {f g : F} {fs : List F}
    (hs : frames t = f :: fs) (h : Other frames t fs u g) (w : F → ℕ) :
    w f + w g ≤ weight w frames := by
  rcases h with ⟨rfl, hg⟩ | ⟨hu, hg⟩
  · have hsum := le_stackWeight w hg
    have hall := le_weight w frames u
    simp only [hs, stackWeight_cons] at hall
    omega
  · have hsum := le_stackWeight w hg
    have hall := weight_two w frames (Ne.symm hu)
    simp only [hs, stackWeight_cons] at hall
    omega

omit [Fintype T] in
theorem mem_update {frames : T → List F} {t u : T} {g : F} (new : List F) {fs : List F}
    (h : g ∈ Function.update frames t (new ++ fs) u) :
    u = t ∧ g ∈ new ∨ Other frames t fs u g := by
  by_cases hu : u = t
  · subst u
    simp only [Function.update_self, List.mem_append] at h
    rcases h with h | h
    · exact .inl ⟨rfl, h⟩
    · exact .inr (.inl ⟨rfl, h⟩)
  · simp only [Function.update_of_ne hu] at h
    exact .inr (.inr ⟨hu, h⟩)

omit [Fintype T] in
/-- After a call a frame is the one that was entered, or was there before. -/
theorem mem_push {frames : T → List F} {t u : T} {f g : F}
    (h : g ∈ Function.update frames t (f :: frames t) u) : g = f ∨ g ∈ frames u := by
  rcases mem_update [f] h with ⟨_, hg⟩ | ⟨rfl, hg⟩ | ⟨_, hg⟩
  · exact .inl (List.mem_singleton.mp hg)
  · exact .inr hg
  · exact .inr hg

omit [Fintype T] in
theorem push_mem {frames : T → List F} {u : T} {g : F} (t : T) (f : F) (h : g ∈ frames u) :
    g ∈ Function.update frames t (f :: frames t) u := by
  by_cases hu : u = t
  · subst hu
    rw [Function.update_self]
    exact List.mem_cons_of_mem f h
  · rw [Function.update_of_ne hu]
    exact h

end Weight

end ServerCore.Framework
