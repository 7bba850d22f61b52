import ServerCore.Framework.Along
import ServerCore.Pools.ObjectPlaces
import Mathlib.Order.Interval.Finset.Nat

namespace ServerCore.Pools

open Framework

variable {T : Type} [DecidableEq T] [Fintype T]

/-- Counts every object, but not null. -/
def each : ℕ → ℕ := fun obj => if obj = 0 then 0 else 1

/-- The number of objects handed out and not yet given back. -/
def usingCount (s : ObjectConf T) : ℕ := handedOut each s

/-- Objects that calls of `Reserve` have put into the pool and not yet added to `mAllocCount`. -/
def notAdded (s : ObjectConf T) : ℕ := weight ObjectFrame.uncounted s.frames

/-- The statistics around a step: a `GetUsingCount` returns the number of objects in use, and
afterwards `mAllocCount` is not below the size of the pool and has all that was added to it. -/
structure CountsRight (s : ObjectConf T) (a : Action T ObjectChoice) (s' : ObjectConf T) : Prop where
  returned : ∀ t c fs, a = .step t c → s.frames t = .getUsingCount :: fs →
    s.mem.getUsingCount = usingCount s
  pool_le : s'.mem.mPool.length ≤ s'.mem.getAllocCount
  updated : s'.mem.getAllocCount = s'.mem.added % 2 ^ 64

/-- When the next step of a frame keeps the statistics right. -/
def ObjectFrame.Careful (s : ObjectConf T) : ObjectFrame → Prop
  | .getUsingCount => notAdded s = 0
  | .writeCount _ count => s.mem.mAllocCount = count
  | .releaseAll (_ :: _) _ => notAdded s < usingCount s
  | .release obj => obj ≠ 0 → notAdded s < usingCount s
  | _ => True

/-- `GetUsingCount` runs only when no `Reserve` has uncounted objects in the pool, `Reserve` writes
only when nothing changed `mAllocCount` since its read, and an object is put into the pool only when
more objects are in use than uncounted. -/
def CarefulStep (s : ObjectConf T) (a : Action T ObjectChoice) : Prop :=
  ∀ t c f fs, a = .step t c → s.frames t = f :: fs → f.Careful s

/-- What a frame of `Reserve` knows of its call. -/
def ObjectFrame.Sized : ObjectFrame → Prop
  | .releaseAll temp size => temp.length ≤ size ∧ 0 ∉ temp
  | .writeCount _ count => count < 2 ^ 64
  | _ => True

/-- Every object was added to `mAllocCount`, or a call of `Reserve` still has to do so. -/
structure Balanced (s : ObjectConf T) : Prop where
  sized : ∀ t, ∀ f ∈ s.frames t, f.Sized
  count_lt : s.mem.mAllocCount < 2 ^ 64
  balance : stackWeight each s.mem.allocated = s.mem.added + notAdded s + reserved each s

theorem stackWeight_each {l : List ℕ} (h : 0 ∉ l) : stackWeight each l = l.length := by
  apply stackWeight_eq_length
  intro ptr hptr
  have hnull : ptr ≠ 0 := by
    rintro rfl
    exact h hptr
  exact if_neg hnull

namespace ObjectPool

variable {p p' : ObjectPool}

@[simp] theorem release_mAllocCount (p : ObjectPool) (obj : ℕ) :
    (p.release obj).mAllocCount = p.mAllocCount := by
  unfold release
  split <;> rfl

@[simp] theorem release_added (p : ObjectPool) (obj : ℕ) : (p.release obj).added = p.added := by
  unfold release
  split <;> rfl

theorem release_length (p : ObjectPool) {obj : ℕ} (h : obj ≠ 0) :
    (p.release obj).mPool.length = p.mPool.length + 1 := by
  rw [release, if_pos h, List.length_cons]

theorem fill_counts {raws temp : List ℕ} {done : Bool}
    (h : p.fill raws = some (p', temp, done)) :
    p'.mAllocCount = p.mAllocCount ∧ p'.added = p.added ∧ 0 ∉ temp ∧
      (done = true → temp.length = raws.length) := by
  induction raws generalizing p temp with
  | nil =>
    simp only [fill, Option.some.injEq, Prod.mk.injEq] at h
    obtain ⟨rfl, rfl, rfl⟩ := h
    exact ⟨rfl, rfl, List.not_mem_nil, fun _ => rfl⟩
  | cons raw raws ih =>
    rcases fill_cases h with ⟨rfl, rfl, rfl⟩ | ⟨rest, hnull, _, hrest, rfl⟩
    · exact ⟨rfl, rfl, List.not_mem_nil, fun hdone => absurd hdone Bool.false_ne_true⟩
    · obtain ⟨hcount, hadded, hnone, hlen⟩ := ih hrest
      refine ⟨hcount, hadded, ?_, ?_⟩
      · simp [hnone, Ne.symm hnull]
      · intro hdone
        rw [List.length_cons, List.length_cons, hlen hdone]

/-- `New` counts the object that it allocates. -/
theorem new_counts {raw ptr : ℕ} (h : p.new raw = some (p', ptr)) :
    stackWeight each p'.allocated + p.added = stackWeight each p.allocated + p'.added ∧
      (p'.mAllocCount = p.mAllocCount ∧ p'.added = p.added ∧ p'.mPool.length ≤ p.mPool.length ∨
        p'.mAllocCount = (p.mAllocCount + 1) % 2 ^ 64 ∧ p'.added = p.added + 1 ∧ p'.mPool = []) := by
  rcases new_cases h with ⟨rest, htop, rfl⟩ | ⟨hempty, hnull, rfl, rfl⟩
  · exact ⟨rfl, .inl ⟨rfl, rfl, by simp [htop]⟩⟩
  · refine ⟨?_, .inr ⟨rfl, rfl, hempty⟩⟩
    simp only [construct, stackWeight_cons, each, if_neg hnull]
    omega

end ObjectPool

theorem ObjectFrame.plain_uncounted {f : ObjectFrame} (h : f.plain = true) :
    f.uncounted = 0 ∧ f.Sized := by
  unfold plain at h
  split at h <;> simp_all [uncounted, Sized]

/-- A step counts what it allocates, or leaves it to its call of `Reserve`. -/
theorem ObjectStep.balance {p p' : ObjectPool} {old new : List ObjectFrame}
    (h : ObjectStep p old p' new) (hsized : ∀ f ∈ old, f.Sized) :
    stackWeight each p'.allocated + p.added + stackWeight ObjectFrame.uncounted old +
        stackWeight (ObjectFrame.keeps each) old =
      stackWeight each p.allocated + p'.added + stackWeight ObjectFrame.uncounted new +
        stackWeight (ObjectFrame.keeps each) new := by
  cases h with
  | plain old new hold hnew =>
    rw [stackWeight_eq_zero fun f hf => (ObjectFrame.plain_weight (hold f hf) (v := each) rfl).2,
      stackWeight_eq_zero fun f hf => (ObjectFrame.plain_weight (hnew f hf) (v := each) rfl).2,
      stackWeight_eq_zero fun f hf => (ObjectFrame.plain_uncounted (hold f hf)).1,
      stackWeight_eq_zero fun f hf => (ObjectFrame.plain_uncounted (hnew f hf)).1]
  | new raw ptr p' _ hnew | acquire raw ptr p' _ hnew =>
    have hcounts := (ObjectPool.new_counts hnew).1
    simp [ObjectFrame.uncounted, ObjectFrame.keeps, ObjectFrame.temp]
    omega
  | fill raws temp p' hfill =>
    obtain ⟨_, hadded, hnone, hlen⟩ := ObjectPool.fill_counts hfill
    obtain ⟨_, _, _, hsum⟩ := ObjectPool.fill_weight each hfill
    simp [ObjectFrame.uncounted, ObjectFrame.keeps, ObjectFrame.temp, hadded, hlen rfl]
    omega
  | badAlloc raws temp p' hfill =>
    obtain ⟨_, hadded, _, _⟩ := ObjectPool.fill_counts hfill
    obtain ⟨_, _, _, hsum⟩ := ObjectPool.fill_weight each hfill
    simp [ObjectFrame.uncounted, ObjectFrame.keeps, ObjectFrame.temp, hadded]
    omega
  | releaseNext ptr temp size =>
    obtain ⟨hlen, hnone⟩ := hsized _ (List.mem_singleton_self _)
    have hptr : each ptr = 1 := if_neg fun h => hnone (by simp [h])
    rw [List.length_cons] at hlen
    simp [ObjectFrame.uncounted, ObjectFrame.keeps, ObjectFrame.temp, hptr]
    omega
  | _ => simp [ObjectFrame.uncounted, ObjectFrame.keeps, ObjectFrame.temp, Nat.add_assoc]

theorem ObjectStep.sized {p p' : ObjectPool} {old new : List ObjectFrame}
    (h : ObjectStep p old p' new) (hsized : ∀ f ∈ old, f.Sized) (hlt : p.mAllocCount < 2 ^ 64) :
    (∀ f ∈ new, f.Sized) ∧ p'.mAllocCount < 2 ^ 64 := by
  cases h with
  | plain old new _ hnew => exact ⟨fun f hf => (ObjectFrame.plain_uncounted (hnew f hf)).2, hlt⟩
  | new raw ptr p' _ hnew | acquire raw ptr p' _ hnew =>
    obtain ⟨_, ⟨hcount, _, _⟩ | ⟨hcount, _, _⟩⟩ := ObjectPool.new_counts hnew
    · exact ⟨by simp [ObjectFrame.Sized], by simpa [hcount] using hlt⟩
    · exact ⟨by simp [ObjectFrame.Sized], by simp only [hcount]; omega⟩
  | fill raws temp p' hfill =>
    obtain ⟨hcount, _, hnone, hlen⟩ := ObjectPool.fill_counts hfill
    exact ⟨by simp [ObjectFrame.Sized, hnone, hlen rfl], by simpa [hcount] using hlt⟩
  | badAlloc raws temp p' hfill =>
    obtain ⟨hcount, _, _, _⟩ := ObjectPool.fill_counts hfill
    exact ⟨by simp [ObjectFrame.Sized], by simpa [hcount] using hlt⟩
  | releaseNext ptr temp size =>
    obtain ⟨hlen, hnone⟩ := hsized _ (List.mem_singleton_self _)
    rw [List.length_cons] at hlen
    refine ⟨?_, by simpa using hlt⟩
    intro f hf
    obtain rfl := List.mem_singleton.mp hf
    exact ⟨by omega, fun h => hnone (List.mem_cons_of_mem _ h)⟩
  | readCount size => exact ⟨by simpa [ObjectFrame.Sized] using hlt, hlt⟩
  | writeCount size count => exact ⟨by simp, by simp only; omega⟩
  | release obj => exact ⟨by simp, by simpa using hlt⟩
  | _ => exact ⟨by simp [ObjectFrame.Sized], hlt⟩

theorem Balanced.step {s : ObjectConf T} {t : T} {old fs new : List ObjectFrame} {p : ObjectPool}
    (hs : Balanced s) (hf : s.frames t = old ++ fs) (hstep : ObjectStep s.mem old p new) :
    Balanced ⟨p, Function.update s.frames t (new ++ fs)⟩ := by
  have hold : ∀ f ∈ old, f.Sized := by
    intro f hmem
    exact hs.sized t f (by rw [hf]; exact List.mem_append_left fs hmem)
  obtain ⟨hnew, hlt⟩ := hstep.sized hold hs.count_lt
  refine ⟨?_, hlt, ?_⟩
  · intro u f hmem
    rcases mem_update new hmem with ⟨_, hin⟩ | hother
    · exact hnew f hin
    · exact hs.sized u f (hother.mem_append hf)
  · have hbalance := hs.balance
    have hmoved := hstep.balance hold
    have huncounted := weight_stack ObjectFrame.uncounted hf new
    have hkeeps := weight_stack (ObjectFrame.keeps each) hf new
    simp only [notAdded, reserved] at hbalance ⊢
    omega

omit [DecidableEq T] in
/-- What is in the pool or in use was added to `mAllocCount`, or is not added yet. -/
theorem Balanced.pool_using {s : ObjectConf T} (hs : Balanced s) (ho : Owned s) :
    s.mem.mPool.length + usingCount s = s.mem.added + notAdded s := by
  have hbalance := hs.balance
  have hplaced := ho.placed each rfl
  have hnone : 0 ∉ s.mem.mPool := fun h =>
    (ho.stocked.address 0 (ho.stocked.pool_subset h)).1 rfl
  rw [stackWeight_each hnone] at hplaced
  simp only [usingCount]
  omega

theorem Stocked.length_lt {p : ObjectPool} (h : Stocked p) : p.allocated.length < 2 ^ 64 := by
  have hsub : p.allocated.toFinset ⊆ Finset.Ioo 0 (2 ^ 64) := by
    intro ptr hptr
    obtain ⟨hnull, hlt⟩ := h.address ptr (List.mem_toFinset.mp hptr)
    exact Finset.mem_Ioo.mpr ⟨Nat.pos_of_ne_zero hnull, hlt⟩
  have hcard := Finset.card_le_card hsub
  rw [List.toFinset_card_of_nodup h.nodup, Nat.card_Ioo] at hcard
  omega

omit [DecidableEq T] in
/-- There are fewer objects than addresses. -/
theorem Balanced.added_lt {s : ObjectConf T} (hs : Balanced s) (ho : Owned s) :
    s.mem.added + notAdded s < 2 ^ 64 := by
  have hbalance := hs.balance
  have hlt := ho.stocked.length_lt
  have hnone : 0 ∉ s.mem.allocated := fun h => (ho.stocked.address 0 h).1 rfl
  rw [stackWeight_each hnone] at hbalance
  omega

/-- `mAllocCount` has every update and is not below the size of the pool. -/
structure Exact (s : ObjectConf T) : Prop where
  updated : s.mem.mAllocCount = s.mem.added
  pool_le : s.mem.mPool.length ≤ s.mem.mAllocCount

omit [DecidableEq T] in
/-- `GetUsingCount` is right exactly when no object is left to be added. -/
theorem getUsingCount_iff {s : ObjectConf T} (hs : Balanced s) (ho : Owned s) (he : Exact s) :
    s.mem.getUsingCount = usingCount s ↔ notAdded s = 0 := by
  have hpool := hs.pool_using ho
  have hlt := hs.added_lt ho
  have hupdated := he.updated
  have hle := he.pool_le
  unfold ObjectPool.getUsingCount
  omega

/-- A step of a frame leaves the statistics right exactly when the frame was careful. -/
theorem ObjectStep.right_iff {s : ObjectConf T} {t : T} {f : ObjectFrame}
    {fs new : List ObjectFrame} {p : ObjectPool} (hs : Balanced s) (ho : Owned s) (he : Exact s)
    (hf : s.frames t = f :: fs) (h : ObjectStep s.mem [f] p new) :
    (f = .getUsingCount → s.mem.getUsingCount = usingCount s) ∧
        p.mPool.length ≤ p.mAllocCount ∧ p.mAllocCount = p.added % 2 ^ 64 ↔ f.Careful s := by
  have hlt := hs.added_lt ho
  have hpool := hs.pool_using ho
  have hupdated := he.updated
  have hle := he.pool_le
  have hlt' := (hs.step hf h).added_lt (ho.step hf h)
  cases h with
  | plain old new hold _ =>
    have hplain := hold f (List.mem_singleton_self f)
    have hexact : s.mem.mPool.length ≤ s.mem.mAllocCount ∧
        s.mem.mAllocCount = s.mem.added % 2 ^ 64 := ⟨hle, by omega⟩
    cases f with
    | getUsingCount =>
      simp only [ObjectFrame.Careful, true_implies, and_iff_left hexact]
      exact getUsingCount_iff hs ho he
    | release obj =>
      cases obj with
      | zero =>
        simp only [ObjectFrame.Careful, ne_eq, not_true, iff_true, reduceCtorEq, false_implies,
          true_and]
        exact hexact
      | succ n => simp [ObjectFrame.plain] at hplain
    | new | acquire | reserve | getAllocCount =>
      simp only [ObjectFrame.Careful, iff_true, reduceCtorEq, false_implies, true_and]
      exact hexact
    | _ => simp [ObjectFrame.plain] at hplain
  | new raw ptr p' _ hnew | acquire raw ptr p' _ hnew =>
    obtain ⟨_, ⟨hcount, hadded, hlen⟩ | ⟨hcount, hadded, hempty⟩⟩ := ObjectPool.new_counts hnew
    · simp only [ObjectFrame.Careful, iff_true, reduceCtorEq, false_implies, true_and]
      omega
    · simp only [ObjectFrame.Careful, iff_true, reduceCtorEq, false_implies, true_and, hempty,
        List.length_nil]
      omega
  | fill raws temp p' hfill | badAlloc raws temp p' hfill =>
    obtain ⟨hcount, hadded, _, _⟩ := ObjectPool.fill_counts hfill
    obtain ⟨_, _, hsame, _⟩ := ObjectPool.fill_weight each hfill
    simp only [ObjectFrame.Careful, iff_true, reduceCtorEq, false_implies, true_and, hsame]
    omega
  | release obj =>
    simp only [ObjectFrame.Careful, reduceCtorEq, false_implies, true_and,
      ObjectPool.release_mAllocCount, ObjectPool.release_added]
    by_cases hnull : obj = 0
    · subst hnull
      simp only [ObjectPool.release, ne_eq, not_true, if_false, false_implies, iff_true]
      omega
    · rw [ObjectPool.release_length _ hnull]
      omega
  | releaseNext ptr temp size =>
    have hsized := hs.sized t (.releaseAll (ptr :: temp) size) (by simp [hf])
    have hnull : ptr ≠ 0 := fun h => hsized.2 (by simp [h])
    simp only [ObjectFrame.Careful, reduceCtorEq, false_implies, true_and,
      ObjectPool.release_mAllocCount, ObjectPool.release_added,
      ObjectPool.release_length _ hnull]
    omega
  | writeCount size count =>
    have hsized := hs.sized t (.writeCount size count) (by simp [hf])
    simp only [ObjectFrame.Careful, ObjectFrame.Sized, reduceCtorEq, false_implies, true_and]
      at hsized hlt' ⊢
    omega
  | makeShared | unmade | readCount =>
    simp only [ObjectFrame.Careful, iff_true, reduceCtorEq, false_implies, true_and]
    omega

/-- A call leaves the statistics alone. -/
theorem ObjectStep.call_same {p p' : ObjectPool} {new : List ObjectFrame}
    (h : ObjectStep p [] p' new) :
    p'.mPool = p.mPool ∧ p'.mAllocCount = p.mAllocCount ∧ p'.added = p.added := by
  cases h <;> exact ⟨rfl, rfl, rfl⟩

/-- What holds in every state that careful steps reach. -/
structure Exactly (s : ObjectConf T) : Prop where
  owned : Owned s
  balanced : Balanced s
  exact : Exact s

theorem countsRight_iff {s s' : ObjectConf T} {a : Action T ObjectChoice} (hs : Exactly s)
    (h : objectMachine.next s a = some s') : CountsRight s a s' ↔ CarefulStep s a := by
  obtain ⟨ho, hb, he⟩ := hs
  obtain ⟨t, old, fs, p, new, hf, hstep, rfl, ⟨c, rfl, rfl⟩ | ⟨c, f, rfl, rfl⟩⟩ := object_next h
  · obtain ⟨hpool, hcount, hadded⟩ := hstep.call_same
    have hlt := hb.added_lt ho
    have hupdated := he.updated
    constructor
    · intro _ t' c' f fs' heq
      exact absurd heq (by simp)
    · intro _
      refine ⟨fun t' c' fs' heq => absurd heq (by simp), ?_, ?_⟩
      · simp only [ObjectPool.getAllocCount, hpool, hcount]
        exact he.pool_le
      · simp only [ObjectPool.getAllocCount, hcount, hadded]
        omega
  · have hiff := hstep.right_iff hb ho he hf
    constructor
    · rintro ⟨hreturned, hpool, hupdated⟩ t' c' f' fs' heq hf'
      obtain ⟨rfl, _⟩ := Action.step.inj heq
      obtain ⟨rfl, _⟩ := List.cons.inj (hf.symm.trans hf')
      refine hiff.mp ⟨?_, hpool, hupdated⟩
      rintro rfl
      exact hreturned t c fs rfl hf
    · intro hcareful
      obtain ⟨hreturned, hpool, hupdated⟩ := hiff.mpr (hcareful t c f fs rfl hf)
      refine ⟨?_, hpool, hupdated⟩
      intro t' c' fs' heq hf'
      obtain ⟨rfl, _⟩ := Action.step.inj heq
      obtain ⟨rfl, _⟩ := List.cons.inj (hf.symm.trans hf')
      exact hreturned rfl

theorem Exactly.next {s s' : ObjectConf T} {a : Action T ObjectChoice} (hs : Exactly s)
    (h : objectMachine.next s a = some s') (hcareful : CarefulStep s a) : Exactly s' := by
  obtain ⟨_, hpool, hupdated⟩ := (countsRight_iff hs h).mpr hcareful
  have howned := hs.owned.next h
  obtain ⟨t, old, fs, p, new, hf, hstep, rfl, _⟩ := object_next h
  have hbalanced := hs.balanced.step hf hstep
  have hlt := hbalanced.added_lt howned
  refine ⟨howned, hbalanced, ?_, hpool⟩
  exact hupdated.trans (Nat.mod_eq_of_lt (by omega))

omit [DecidableEq T] in
theorem exactly_start : Exactly (objectStart : ObjectConf T) := by
  refine ⟨owned_start, ⟨?_, ?_, ?_⟩, rfl, le_refl _⟩
  · intro t f hf
    exact absurd hf List.not_mem_nil
  · simp [objectStart]
  · simp [objectStart, notAdded, reserved]

/-- In a run on any number of threads the statistics are right exactly when all steps are
careful. -/
theorem counts_right_iff (as : List (Action T ObjectChoice)) :
    Along objectMachine.next CountsRight objectStart as ↔
      Along objectMachine.next (fun s a _ => CarefulStep s a) objectStart as := by
  apply along_iff Exactly fun _ => True
  · exact fun s a s' hs _ h => countsRight_iff hs h
  · exact fun s a s' hs _ h hcareful => hs.next h hcareful
  · exact exactly_start
  · exact fun a _ => trivial

/-- `GetUsingCount` while `Reserve(1)` has put its object into the pool and not yet counted it. -/
def countDuringReserve : List (Action Bool ObjectChoice) :=
  [.enter true (.callReserve 1), .step true (.mallocs [8]), .step true .go,
    .enter false .callGetUsingCount, .step false .go]

theorem counts_wrong :
    ¬∀ as : List (Action Bool ObjectChoice), Along objectMachine.next CountsRight objectStart as := by
  intro h
  obtain ⟨_, h⟩ := h countDuringReserve _ rfl
  obtain ⟨_, h⟩ := h _ rfl
  obtain ⟨_, h⟩ := h _ rfl
  obtain ⟨_, h⟩ := h _ rfl
  have hreturned := (h _ rfl).1.returned false .go [] rfl rfl
  exact absurd hreturned (by decide +kernel)

end ServerCore.Pools
