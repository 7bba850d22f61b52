import ServerCore.Network.Listener

namespace ServerCore.Network

open Framework

/-- What a call of `AcceptEx` returns, and `WSAGetLastError()` after it. -/
structure AcceptExResult where
  result : Bool
  errorCode : Int32
  deriving DecidableEq

def WSA_IO_PENDING : Int32 := 997

/-- The call is neither completed nor pending. -/
def AcceptExResult.refused (r : AcceptExResult) : Bool :=
  !r.result && r.errorCode != WSA_IO_PENDING

/-- How a call of `RegisterAccept` ends. -/
inductive Arming (S : Type) where
  | armed (context : AcceptContext S)
  /-- `mCustomBuffer` of a null session is accessed. -/
  | nullSession

/-- `RegisterAccept`, where `create k` and `acceptEx k` are what `CreateSession` and `AcceptEx`
return in the nested call `k`. The first argument bounds the nesting. -/
def RegisterAccept {S : Type} (create : ℕ → Option S) (acceptEx : ℕ → AcceptExResult) :
    ℕ → ℕ → Option (Arming S)
  | 0, _ => none
  | n + 1, k =>
      match create k with
      | none => some .nullSession
      | some session =>
          if (acceptEx k).refused then RegisterAccept create acceptEx n (k + 1)
          else some (.armed ⟨some session, true⟩)

section

variable {S : Type} {create : ℕ → Option S} {acceptEx : ℕ → AcceptExResult}

/-- With a bound of `n` the call ends armed if one of the first `n` nested calls gets through. -/
theorem registerAccept_armed (n k j : ℕ) (hj : j < n)
    (hthrough : (acceptEx (k + j)).refused = false)
    (hcreate : ∀ i ≤ j, (create (k + i)).isSome) :
    ∃ context, RegisterAccept create acceptEx n k = some (.armed context) := by
  induction n generalizing k j with
  | zero => omega
  | succ n ih =>
    obtain ⟨session, hsession⟩ := Option.isSome_iff_exists.mp (hcreate 0 (Nat.zero_le j))
    rw [Nat.add_zero] at hsession
    simp only [RegisterAccept, hsession]
    cases hfirst : (acceptEx k).refused with
    | false => exact ⟨⟨some session, true⟩, by simp⟩
    | true =>
      cases j with
      | zero => simp [hfirst] at hthrough
      | succ j =>
        have hnext : k + (j + 1) = k + 1 + j := by omega
        rw [hnext] at hthrough
        obtain ⟨context, hcontext⟩ := ih (k + 1) j (by omega) hthrough fun i hi => by
          have hstep := hcreate (i + 1) (by omega)
          rwa [show k + (i + 1) = k + 1 + i by omega] at hstep
        exact ⟨context, by simpa using hcontext⟩

/-- A call that ends armed got through in one of its nested calls, and made a session in each. -/
theorem through_of_armed (n k : ℕ) {context : AcceptContext S}
    (h : RegisterAccept create acceptEx n k = some (.armed context)) :
    ∃ j < n, (acceptEx (k + j)).refused = false ∧ (∀ i ≤ j, (create (k + i)).isSome) ∧
      context = ⟨create (k + j), true⟩ := by
  induction n generalizing k with
  | zero => simp [RegisterAccept] at h
  | succ n ih =>
    cases hsession : create k with
    | none => simp [RegisterAccept, hsession] at h
    | some session =>
      simp only [RegisterAccept, hsession] at h
      split at h
      · obtain ⟨j, hj, hthrough, hcreate, hcontext⟩ := ih (k + 1) h
        have hnext : k + 1 + j = k + (j + 1) := by omega
        rw [hnext] at hthrough hcontext
        refine ⟨j + 1, by omega, hthrough, ?_, hcontext⟩
        intro i hi
        cases i with
        | zero => simp [hsession]
        | succ i =>
          have hstep := hcreate i (by omega)
          rwa [show k + 1 + i = k + (i + 1) by omega] at hstep
      · next hthrough =>
        simp only [Option.some.injEq, Arming.armed.injEq] at h
        refine ⟨0, by omega, by simpa using hthrough, ?_, by simp [← h, hsession]⟩
        intro i hi
        obtain rfl : i = 0 := by omega
        simp [hsession]

/-- `RegisterAccept` returns after finitely many nested calls exactly when some `AcceptEx` is not
refused and `CreateSession` succeeds up to there. -/
theorem registerAccept_returns_iff (create : ℕ → Option S) (acceptEx : ℕ → AcceptExResult) :
    (∃ n context, RegisterAccept create acceptEx n 0 = some (.armed context)) ↔
      ∃ k, (acceptEx k).refused = false ∧ ∀ i ≤ k, (create i).isSome := by
  constructor
  · rintro ⟨n, context, h⟩
    obtain ⟨j, _, hthrough, hcreate, _⟩ := through_of_armed n 0 h
    simp only [Nat.zero_add] at hthrough hcreate
    exact ⟨j, hthrough, hcreate⟩
  · rintro ⟨k, hthrough, hcreate⟩
    obtain ⟨context, h⟩ := registerAccept_armed (k + 1) 0 k (by omega) (by simpa using hthrough)
      (by simpa using hcreate)
    exact ⟨k + 1, context, h⟩

/-- After `CloseSocket` each `AcceptEx` fails with `WSAENOTSOCK`. -/
theorem registerAccept_never_returns : ¬∀ acceptEx : ℕ → AcceptExResult,
    ∃ n context, RegisterAccept (fun k => some k) acceptEx n 0 = some (.armed context) := by
  intro claim
  obtain ⟨n, context, h⟩ := claim fun _ => ⟨false, 10038⟩
  obtain ⟨j, _, hthrough, _⟩ := through_of_armed n 0 h
  simp [AcceptExResult.refused, WSA_IO_PENDING] at hthrough

end

section Machine

variable {T S : Type} [DecidableEq T] [DecidableEq S] [Fintype T]

omit [DecidableEq T] [Fintype T] in
theorem letGo_destroyed (σ : ListenerSystem T S) (a : ℕ) (x : S) :
    ((σ.letGo a).session x).destroyed = (σ.system.session x).destroyed := by
  unfold ListenerSystem.letGo
  split
  · rfl
  · next y _ => by_cases hx : x = y <;> simp [hx]

/-- No session has been made at these addresses. -/
def Fresh (s : ListenerConf T S) (x : S) : Prop :=
  (s.mem.system.session x).bound = false ∧ (s.mem.system.session x).destroyed = false

/-- `CreateSession` of a nested call, up to its `AcceptEx`. -/
theorem create_next {s : ListenerConf T S} {t : T} {a : ℕ} {x : S} {fs : List (ListenerFrame T S)}
    (hf : s.frames t = .registerAccept a :: fs) (hx : Fresh s x) :
    ∃ s', listenerMachine.next s (.step t (.create x)) = some s' ∧
      s'.frames t = .acceptEx a :: fs ∧ s'.mem.accept a = ⟨some x, false⟩ ∧
      (∀ y, y ≠ x → Fresh s y → Fresh s' y) ∧
      ∀ y, (s'.mem.system.session y).bound = true ↔
        y = x ∨ (s.mem.system.session y).bound = true := by
  refine ⟨⟨{ s.mem.setAccept a ⟨some x, false⟩ with
        system := (s.mem.letGo a).set x
          { s.mem.system.session x with bound := true, accepting := true } },
      Function.update s.frames t ([.acceptEx a] ++ fs)⟩, ?_, by simp, ?_, ?_, ?_⟩
  · simp [Machine.next, hf, listenerMachine, listenerStep, hx.1, hx.2]
  · simp [ListenerSystem.setAccept]
  · intro y hy hfresh
    simpa only [Fresh, System.set_session_of_ne _ hy, letGo_bound, letGo_destroyed] using hfresh
  · intro y
    by_cases hy : y = x
    · subst hy
      simp
    · simp [letGo_bound, hy]

/-- What the function returns is what the thread of the listening service gets to. -/
theorem registerAccept_run (create : ℕ → S) (hinj : Function.Injective create) (n k : ℕ)
    {context : AcceptContext S} {acceptEx : ℕ → AcceptExResult}
    (h : RegisterAccept (fun i => some (create i)) acceptEx n k = some (.armed context))
    {s : ListenerConf T S} {t : T} {a : ℕ} {fs : List (ListenerFrame T S)}
    (hf : s.frames t = .registerAccept a :: fs) (hfresh : ∀ i, k ≤ i → Fresh s (create i)) :
    ∃ s', listenerMachine.Reach (fun _ _ => True) s s' ∧ s'.frames t = fs ∧
      s'.mem.accept a = context := by
  induction n generalizing k s with
  | zero => simp [RegisterAccept] at h
  | succ n ih =>
    obtain ⟨s₁, hcreate, hframes, haccept, hkept, _⟩ := create_next hf (hfresh k le_rfl)
    have hfirst : listenerMachine.Reach (fun _ _ => True) s s₁ := .next .start trivial hcreate
    simp only [RegisterAccept] at h
    split at h
    · -- the nested call starts over with the next session
      have hrefused : listenerMachine.next s₁ (.step t (.session (.result false))) =
          some ⟨s₁.mem, Function.update s₁.frames t ([.registerAccept a] ++ fs)⟩ := by
        simp [Machine.next, hframes, listenerMachine, listenerStep]
      have hrest : ∀ i, k + 1 ≤ i → Fresh s₁ (create i) := by
        intro i hi
        apply hkept (create i) _ (hfresh i (by omega))
        intro heq
        have := hinj heq
        omega
      obtain ⟨s', hreach, hdone⟩ := ih (k + 1) h
        (s := ⟨s₁.mem, Function.update s₁.frames t ([.registerAccept a] ++ fs)⟩) (by simp) hrest
      exact ⟨s', (Machine.Reach.next hfirst trivial hrefused).trans hreach, hdone⟩
    · have hposted : listenerMachine.next s₁ (.step t (.session (.result true))) =
          some ⟨s₁.mem.setAccept a { s₁.mem.accept a with pending := true },
            Function.update s₁.frames t ([] ++ fs)⟩ := by
        simp [Machine.next, hframes, listenerMachine, listenerStep]
      refine ⟨_, .next hfirst trivial hposted, by simp, ?_⟩
      simp only [Option.some.injEq, Arming.armed.injEq] at h
      simp [ListenerSystem.setAccept, haccept, ← h]

/-- As long as each `AcceptEx` is refused, every nested call makes one more session and calls
`RegisterAccept` again. -/
theorem refused_run (create : ℕ → S) (hinj : Function.Injective create) (n : ℕ)
    {s : ListenerConf T S} {t : T} {a : ℕ} {fs : List (ListenerFrame T S)}
    (hf : s.frames t = .registerAccept a :: fs) (hfresh : ∀ i, Fresh s (create i)) :
    ∃ s', listenerMachine.Reach (fun _ _ => True) s s' ∧
      s'.frames t = .registerAccept a :: fs ∧ (∀ i, n ≤ i → Fresh s' (create i)) ∧
      ∀ i < n, (s'.mem.system.session (create i)).bound = true := by
  induction n with
  | zero => exact ⟨s, .start, hf, fun i _ => hfresh i, by simp⟩
  | succ n ih =>
    obtain ⟨s₁, hreach, hframes, hleft, hmade⟩ := ih
    obtain ⟨s₂, hcreate, hframes₂, _, hkept, hbound⟩ := create_next hframes (hleft n le_rfl)
    have hrefused : listenerMachine.next s₂ (.step t (.session (.result false))) =
        some ⟨s₂.mem, Function.update s₂.frames t ([.registerAccept a] ++ fs)⟩ := by
      simp [Machine.next, hframes₂, listenerMachine, listenerStep]
    refine ⟨_, .next (.next hreach trivial hcreate) trivial hrefused, by simp, ?_, ?_⟩
    · intro i hi
      exact hkept (create i) (fun heq => by have := hinj heq; omega) (hleft i (by omega))
    · intro i hi
      rw [hbound]
      by_cases hlast : i = n
      · exact .inl (by rw [hlast])
      · exact .inr (hmade i (by omega))

end Machine

end ServerCore.Network
