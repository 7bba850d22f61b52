import ServerCore.Pools.ObjectPool

namespace ServerCore.Pools

open Framework

namespace ObjectFrame

/-- The object that the frame has from the pool and has not given back. -/
def given : ObjectFrame → List ℕ
  | .makeShared row => [row]
  | .release obj => [obj]
  | _ => []

/-- The list `temp` of `Reserve`. -/
def temp : ObjectFrame → List ℕ
  | .releaseAll temp _ | .badAlloc temp => temp
  | _ => []

/-- The weight of `given`. -/
def gives (v : ℕ → ℕ) (f : ObjectFrame) : ℕ := stackWeight v f.given

/-- The weight of `temp`. -/
def keeps (v : ℕ → ℕ) (f : ObjectFrame) : ℕ := stackWeight v f.temp

/-- Objects that `Reserve` has put into the pool and not yet added to `mAllocCount`. -/
def uncounted : ObjectFrame → ℕ
  | .releaseAll temp size => size - temp.length
  | .writeCount size _ => size
  | _ => 0

/-- Frames without an object. -/
def plain : ObjectFrame → Bool
  | .new | .acquire | .reserve _ | .release 0 | .getUsingCount | .getAllocCount => true
  | _ => false

end ObjectFrame

namespace ObjectPool

/-- `New` takes the top of the pool, or an object that was never allocated before. -/
theorem new_cases {p p' : ObjectPool} {raw ptr : ℕ} (h : p.new raw = some (p', ptr)) :
    (∃ rest, p.mPool = ptr :: rest ∧ p' = { p.construct ptr with mPool := rest }) ∨
    (p.mPool = [] ∧ raw ≠ 0 ∧ ptr = raw ∧
      p' = { construct { p with allocated := raw :: p.allocated } raw with
        mAllocCount := (p.mAllocCount + 1) % 2 ^ 64, added := p.added + 1 }) := by
  unfold new at h
  split at h
  · next hempty =>
    unfold makeMimalloc at h
    split at h
    · exact absurd h.symm (Option.some_ne_none _)
    · next hraw =>
      obtain ⟨rfl, rfl⟩ := Prod.mk.inj (Option.some.inj h)
      exact .inr ⟨hempty, hraw, rfl, rfl⟩
  · next top rest htop =>
    obtain ⟨rfl, rfl⟩ := Prod.mk.inj (Option.some.inj h)
    exact .inl ⟨rest, htop, rfl⟩

/-- A round of the loop of `Reserve`: `mi_malloc` fails, or its object is constructed. -/
theorem fill_cases {p p' : ObjectPool} {raw : ℕ} {raws temp : List ℕ} {done : Bool}
    (h : p.fill (raw :: raws) = some (p', temp, done)) :
    (p' = p ∧ temp = [] ∧ done = false) ∨
    ∃ rest, raw ≠ 0 ∧ p.answers raw ∧
      (construct { p with allocated := raw :: p.allocated } raw).fill raws =
        some (p', rest, done) ∧ temp = raw :: rest := by
  rw [fill] at h
  split at h
  · next hraw =>
    unfold makeMimalloc at h
    by_cases hnull : raw = 0
    · simp only [if_pos hnull, Option.some.injEq, Prod.mk.injEq] at h
      exact .inl ⟨h.1.symm, h.2.1.symm, h.2.2.symm⟩
    · simp only [if_neg hnull] at h
      obtain ⟨⟨q, rest, ok⟩, hfill, heq⟩ := Option.map_eq_some_iff.mp h
      simp only [Prod.mk.injEq] at heq
      obtain ⟨rfl, rfl, rfl⟩ := heq
      exact .inr ⟨rest, hnull, hraw, hfill, rfl⟩
  · exact absurd h.symm (Option.some_ne_none _)

end ObjectPool

/-- All that one step can do: it replaces the frames `old` on top of a stack. -/
inductive ObjectStep (p : ObjectPool) :
    List ObjectFrame → ObjectPool → List ObjectFrame → Prop
  | plain (old new) : (∀ f ∈ old, f.plain = true) → (∀ f ∈ new, f.plain = true) →
      ObjectStep p old p new
  | delete (obj) : obj ∈ p.raw →
      ObjectStep p [] { p with raw := p.raw.erase obj } [.release obj]
  | lastOwner (obj) : obj ∈ p.shared →
      ObjectStep p [] { p with shared := p.shared.erase obj } [.release obj]
  | new (raw ptr p') : p.answers raw → p.new raw = some (p', ptr) →
      ObjectStep p [.new] { p' with raw := ptr :: p'.raw } []
  | acquire (raw row p') : p.answers raw → p.new raw = some (p', row) →
      ObjectStep p [.acquire] p' [.makeShared row]
  | makeShared (row) :
      ObjectStep p [.makeShared row] { p with shared := row :: p.shared } []
  | unmade (row) : ObjectStep p [.makeShared row] p [.release row]
  | release (obj) : ObjectStep p [.release obj] (p.release obj) []
  | fill (raws temp p') : p.fill raws = some (p', temp, true) →
      ObjectStep p [.reserve raws.length] p' [.releaseAll temp raws.length]
  | badAlloc (raws temp p') : p.fill raws = some (p', temp, false) →
      ObjectStep p [.reserve raws.length] p' [.badAlloc temp]
  | releaseNext (ptr temp size) :
      ObjectStep p [.releaseAll (ptr :: temp) size] (p.release ptr) [.releaseAll temp size]
  | readCount (size) :
      ObjectStep p [.releaseAll [] size] p [.writeCount size p.mAllocCount]
  | writeCount (size count) : ObjectStep p [.writeCount size count]
      { p with mAllocCount := (count + size) % 2 ^ 64, added := p.added + size } []

variable {T : Type}

theorem objectStep_spec {p p' : ObjectPool} (t : T) {f : ObjectFrame} {c : ObjectChoice}
    {new : List ObjectFrame} (h : objectStep p t f c = some (p', new)) :
    ObjectStep p [f] p' new := by
  unfold objectStep at h
  split at h
  · split at h
    · next hraw =>
      split at h
      · obtain ⟨rfl, rfl⟩ := Prod.mk.inj (Option.some.inj h)
        exact .plain _ _ (by simp [ObjectFrame.plain]) (by simp)
      · next hnew =>
        obtain ⟨rfl, rfl⟩ := Prod.mk.inj (Option.some.inj h)
        exact .new _ _ _ hraw hnew
    · exact absurd h.symm (Option.some_ne_none _)
  · split at h
    · next hraw =>
      split at h
      · obtain ⟨rfl, rfl⟩ := Prod.mk.inj (Option.some.inj h)
        exact .plain _ _ (by simp [ObjectFrame.plain]) (by simp)
      · next hnew =>
        obtain ⟨rfl, rfl⟩ := Prod.mk.inj (Option.some.inj h)
        exact .acquire _ _ _ hraw hnew
    · exact absurd h.symm (Option.some_ne_none _)
  · obtain ⟨rfl, rfl⟩ := Prod.mk.inj (Option.some.inj h)
    exact .makeShared _
  · obtain ⟨rfl, rfl⟩ := Prod.mk.inj (Option.some.inj h)
    exact .unmade _
  · obtain ⟨rfl, rfl⟩ := Prod.mk.inj (Option.some.inj h)
    exact .release _
  · obtain ⟨rfl, rfl⟩ := Prod.mk.inj (Option.some.inj h)
    exact .plain _ _ (by simp [ObjectFrame.plain]) (by simp)
  · next size raws =>
    split at h
    · next hlen =>
      subst hlen
      obtain ⟨⟨q, temp, done⟩, hfill, heq⟩ := Option.map_eq_some_iff.mp h
      obtain ⟨rfl, rfl⟩ := Prod.mk.inj heq
      cases done with
      | true => exact .fill _ _ _ hfill
      | false => exact .badAlloc _ _ _ hfill
    · exact absurd h.symm (Option.some_ne_none _)
  · obtain ⟨rfl, rfl⟩ := Prod.mk.inj (Option.some.inj h)
    exact .releaseNext _ _ _
  · obtain ⟨rfl, rfl⟩ := Prod.mk.inj (Option.some.inj h)
    exact .readCount _
  · obtain ⟨rfl, rfl⟩ := Prod.mk.inj (Option.some.inj h)
    exact .writeCount _ _
  · obtain ⟨rfl, rfl⟩ := Prod.mk.inj (Option.some.inj h)
    exact .plain _ _ (by simp [ObjectFrame.plain]) (by simp)
  · obtain ⟨rfl, rfl⟩ := Prod.mk.inj (Option.some.inj h)
    exact .plain _ _ (by simp [ObjectFrame.plain]) (by simp)
  · exact absurd h.symm (Option.some_ne_none _)

theorem objectEnter_spec {p p' : ObjectPool} (frames : T → List ObjectFrame) (t : T)
    {f : ObjectFrame} {c : ObjectChoice} (h : objectEnter p frames t c = some (p', f)) :
    ObjectStep p [] p' [f] := by
  cases c <;> simp only [objectEnter, reduceCtorEq] at h
  case callDelete obj =>
    split at h
    · obtain ⟨rfl, rfl⟩ := Prod.mk.inj (Option.some.inj h)
      exact .plain _ _ (by simp) (by simp [ObjectFrame.plain])
    · split at h
      · next hraw =>
        obtain ⟨rfl, rfl⟩ := Prod.mk.inj (Option.some.inj h)
        exact .delete _ hraw
      · exact absurd h.symm (Option.some_ne_none _)
  case lastOwner obj =>
    split at h
    · next hshared =>
      obtain ⟨rfl, rfl⟩ := Prod.mk.inj (Option.some.inj h)
      exact .lastOwner _ hshared
    · exact absurd h.symm (Option.some_ne_none _)
  case callReserve size =>
    split at h
    · obtain ⟨rfl, rfl⟩ := Prod.mk.inj (Option.some.inj h)
      exact .plain _ _ (by simp) (by simp [ObjectFrame.plain])
    · exact absurd h.symm (Option.some_ne_none _)
  all_goals
    obtain ⟨rfl, rfl⟩ := Prod.mk.inj (Option.some.inj h)
    exact .plain _ _ (by simp) (by simp [ObjectFrame.plain])

variable [DecidableEq T]

/-- Each action is one of a thread; a call has no frame before it. -/
theorem object_next {s s' : ObjectConf T} {a : Action T ObjectChoice}
    (h : objectMachine.next s a = some s') : ∃ t old fs p new,
      s.frames t = old ++ fs ∧ ObjectStep s.mem old p new ∧
      s' = ⟨p, Function.update s.frames t (new ++ fs)⟩ ∧
      ((∃ c, a = .enter t c ∧ old = []) ∨ ∃ c f, a = .step t c ∧ old = [f]) := by
  rcases Machine.next_cases h with ⟨t, c, mem, f, rfl, he, rfl⟩ |
    ⟨t, c, f, fs, mem, new, rfl, hs, he, rfl⟩ | ⟨c, mem, rfl, he, rfl⟩
  · exact ⟨t, [], s.frames t, mem, [f], rfl, objectEnter_spec s.frames t he, rfl, .inl ⟨c, rfl, rfl⟩⟩
  · exact ⟨t, [f], fs, mem, new, hs, objectStep_spec t he, rfl, .inr ⟨c, f, rfl, rfl⟩⟩
  · exact absurd he.symm (Option.some_ne_none _)

variable [Fintype T]

/-- The objects that are handed out and not yet given back, each with its weight. -/
def handedOut (v : ℕ → ℕ) (s : ObjectConf T) : ℕ :=
  stackWeight v s.mem.raw + stackWeight v s.mem.shared +
    weight (ObjectFrame.gives v) s.frames

/-- The objects in a list `temp`, each with its weight. -/
def reserved (v : ℕ → ℕ) (s : ObjectConf T) : ℕ := weight (ObjectFrame.keeps v) s.frames

/-- The pool has different allocated objects, and exactly those are destroyed. -/
structure Stocked (p : ObjectPool) : Prop where
  nodup : p.allocated.Nodup
  address : ∀ ptr ∈ p.allocated, ptr ≠ 0 ∧ ptr < 2 ^ 64
  pool_nodup : p.mPool.Nodup
  pool_subset : p.mPool ⊆ p.allocated
  destroyed : ∀ ptr ∈ p.allocated, p.destroyed ptr = p.mPool.count ptr

/-- Every allocated object is at one place. -/
def Placed (s : ObjectConf T) : Prop := ∀ v : ℕ → ℕ, v 0 = 0 →
  stackWeight v s.mem.allocated = stackWeight v s.mem.mPool + handedOut v s + reserved v s

theorem ObjectFrame.plain_weight {f : ObjectFrame} (h : f.plain = true) {v : ℕ → ℕ}
    (hv : v 0 = 0) : f.gives v = 0 ∧ f.keeps v = 0 := by
  unfold plain at h
  split at h <;> simp_all [gives, keeps, given, temp]

section Weights

variable {p p' : ObjectPool} (v : ℕ → ℕ)

theorem ObjectPool.new_weight {raw ptr : ℕ} (h : p.new raw = some (p', ptr)) :
    p'.raw = p.raw ∧ p'.shared = p.shared ∧
      stackWeight v p'.allocated + stackWeight v p.mPool =
        stackWeight v p.allocated + v ptr + stackWeight v p'.mPool := by
  rcases ObjectPool.new_cases h with ⟨rest, htop, rfl⟩ | ⟨hempty, _, rfl, rfl⟩
  · refine ⟨rfl, rfl, ?_⟩
    simp only [construct, htop, stackWeight_cons]
    omega
  · refine ⟨rfl, rfl, ?_⟩
    simp only [construct, hempty, stackWeight_cons, stackWeight_nil]
    omega

theorem ObjectPool.release_weight (p : ObjectPool) (hv : v 0 = 0) (obj : ℕ) :
    stackWeight v (p.release obj).mPool = v obj + stackWeight v p.mPool := by
  unfold release
  split
  · exact stackWeight_cons v obj p.mPool
  · next hnull =>
    rw [not_not.mp hnull, hv, Nat.zero_add]

@[simp] theorem ObjectPool.release_raw (p : ObjectPool) (obj : ℕ) :
    (p.release obj).raw = p.raw := by
  unfold release
  split <;> rfl

@[simp] theorem ObjectPool.release_shared (p : ObjectPool) (obj : ℕ) :
    (p.release obj).shared = p.shared := by
  unfold release
  split <;> rfl

@[simp] theorem ObjectPool.release_allocated (p : ObjectPool) (obj : ℕ) :
    (p.release obj).allocated = p.allocated := by
  unfold release
  split <;> rfl

/-- The loop of `Reserve` only allocates. -/
theorem ObjectPool.fill_weight {raws temp : List ℕ} {done : Bool}
    (h : p.fill raws = some (p', temp, done)) :
    p'.raw = p.raw ∧ p'.shared = p.shared ∧ p'.mPool = p.mPool ∧
      stackWeight v p'.allocated = stackWeight v p.allocated + stackWeight v temp := by
  induction raws generalizing p temp with
  | nil =>
    simp only [fill, Option.some.injEq, Prod.mk.injEq] at h
    obtain ⟨rfl, rfl, rfl⟩ := h
    exact ⟨rfl, rfl, rfl, rfl⟩
  | cons raw raws ih =>
    rcases fill_cases h with ⟨rfl, rfl, rfl⟩ | ⟨rest, _, _, hrest, rfl⟩
    · exact ⟨rfl, rfl, rfl, rfl⟩
    · obtain ⟨hraw, hshared, hpool, hsum⟩ := ih hrest
      refine ⟨hraw, hshared, hpool, ?_⟩
      simp only [construct, stackWeight_cons] at hsum ⊢
      omega

end Weights

/-- A step moves objects from place to place. -/
theorem ObjectStep.exchange {p p' : ObjectPool} {old new : List ObjectFrame}
    (h : ObjectStep p old p' new) {v : ℕ → ℕ} (hv : v 0 = 0) :
    stackWeight v p.mPool + stackWeight v p.raw + stackWeight v p.shared +
        stackWeight (ObjectFrame.gives v) old + stackWeight (ObjectFrame.keeps v) old +
        stackWeight v p'.allocated =
      stackWeight v p'.mPool + stackWeight v p'.raw + stackWeight v p'.shared +
        stackWeight (ObjectFrame.gives v) new + stackWeight (ObjectFrame.keeps v) new +
        stackWeight v p.allocated := by
  cases h with
  | plain old new hold hnew =>
    rw [stackWeight_eq_zero fun f hf => (ObjectFrame.plain_weight (hold f hf) hv).1,
      stackWeight_eq_zero fun f hf => (ObjectFrame.plain_weight (hnew f hf) hv).1,
      stackWeight_eq_zero fun f hf => (ObjectFrame.plain_weight (hold f hf) hv).2,
      stackWeight_eq_zero fun f hf => (ObjectFrame.plain_weight (hnew f hf) hv).2]
  | delete obj hobj =>
    have herase := stackWeight_erase v hobj
    simp [ObjectFrame.gives, ObjectFrame.keeps, ObjectFrame.given, ObjectFrame.temp]
    omega
  | lastOwner obj hobj =>
    have herase := stackWeight_erase v hobj
    simp [ObjectFrame.gives, ObjectFrame.keeps, ObjectFrame.given, ObjectFrame.temp]
    omega
  | new raw ptr p' _ hnew | acquire raw ptr p' _ hnew =>
    obtain ⟨hraw, hshared, hsum⟩ := ObjectPool.new_weight v hnew
    simp [ObjectFrame.gives, ObjectFrame.keeps, ObjectFrame.given, ObjectFrame.temp, hraw, hshared]
    omega
  | fill raws temp p' hfill | badAlloc raws temp p' hfill =>
    obtain ⟨hraw, hshared, hpool, hsum⟩ := ObjectPool.fill_weight v hfill
    simp [ObjectFrame.gives, ObjectFrame.keeps, ObjectFrame.given, ObjectFrame.temp, hraw, hshared,
      hpool]
    omega
  | release obj =>
    have hpool := p.release_weight v hv obj
    simp [ObjectFrame.gives, ObjectFrame.keeps, ObjectFrame.given, ObjectFrame.temp]
    omega
  | releaseNext ptr temp size =>
    have hpool := p.release_weight v hv ptr
    simp [ObjectFrame.gives, ObjectFrame.keeps, ObjectFrame.given, ObjectFrame.temp]
    omega
  | makeShared row =>
    simp [ObjectFrame.gives, ObjectFrame.keeps, ObjectFrame.given, ObjectFrame.temp]
    omega
  | unmade | readCount | writeCount =>
    simp [ObjectFrame.gives, ObjectFrame.keeps, ObjectFrame.given, ObjectFrame.temp]

/-- No step makes or loses an object. -/
theorem Placed.step {s : ObjectConf T} {t : T} {old fs new : List ObjectFrame} {p : ObjectPool}
    (hs : Placed s) (hf : s.frames t = old ++ fs) (hstep : ObjectStep s.mem old p new) :
    Placed ⟨p, Function.update s.frames t (new ++ fs)⟩ := by
  intro v hv
  have hplaces := hs v hv
  have hmoved := hstep.exchange hv
  have hgives := weight_stack (ObjectFrame.gives v) hf new
  have hkeeps := weight_stack (ObjectFrame.keeps v) hf new
  simp only [handedOut, reserved] at hplaces ⊢
  omega

section Stock

variable {p p' : ObjectPool}

theorem Stocked.allocate (h : Stocked p) {raw : ℕ} (hnull : raw ≠ 0) (hraw : p.answers raw) :
    Stocked (ObjectPool.construct { p with allocated := raw :: p.allocated } raw) := by
  obtain ⟨haddress, hfresh⟩ := hraw.resolve_left hnull
  have hpool : raw ∉ p.mPool := fun hmem => hfresh (h.pool_subset hmem)
  refine ⟨List.nodup_cons.mpr ⟨hfresh, h.nodup⟩, ?_, h.pool_nodup, ?_, ?_⟩
  · intro ptr hptr
    rcases List.mem_cons.mp hptr with rfl | hptr
    · exact ⟨hnull, haddress⟩
    · exact h.address ptr hptr
  · exact fun ptr hptr => List.mem_cons_of_mem raw (h.pool_subset hptr)
  · intro ptr hptr
    by_cases heq : ptr = raw
    · subst heq
      simp [ObjectPool.construct, List.count_eq_zero_of_not_mem hpool]
    · have hold := (List.mem_cons.mp hptr).resolve_left heq
      simpa [ObjectPool.construct, heq] using h.destroyed ptr hold

theorem Stocked.new (h : Stocked p) {raw ptr : ℕ} (hraw : p.answers raw)
    (hnew : p.new raw = some (p', ptr)) : Stocked p' := by
  rcases ObjectPool.new_cases hnew with ⟨rest, htop, rfl⟩ | ⟨_, hnull, rfl, rfl⟩
  · have hnodup := h.pool_nodup
    have hsubset := h.pool_subset
    rw [htop] at hnodup hsubset
    obtain ⟨hout, hrest⟩ := List.nodup_cons.mp hnodup
    refine ⟨h.nodup, h.address, hrest, (List.cons_subset.mp hsubset).2, ?_⟩
    intro obj hobj
    have hdestroyed := h.destroyed obj hobj
    by_cases heq : obj = ptr
    · subst heq
      simp [ObjectPool.construct, List.count_eq_zero_of_not_mem hout]
    · simpa [ObjectPool.construct, heq, htop, Ne.symm heq] using hdestroyed
  · have hstocked := h.allocate hnull hraw
    exact ⟨hstocked.nodup, hstocked.address, hstocked.pool_nodup, hstocked.pool_subset,
      hstocked.destroyed⟩

theorem Stocked.fill (h : Stocked p) {raws temp : List ℕ} {done : Bool}
    (hfill : p.fill raws = some (p', temp, done)) : Stocked p' := by
  induction raws generalizing p temp with
  | nil =>
    simp only [ObjectPool.fill, Option.some.injEq, Prod.mk.injEq] at hfill
    obtain ⟨rfl, rfl, rfl⟩ := hfill
    exact h
  | cons raw raws ih =>
    rcases ObjectPool.fill_cases hfill with ⟨rfl, rfl, rfl⟩ | ⟨rest, hnull, hraw, hrest, rfl⟩
    · exact h
    · exact ih (h.allocate hnull hraw) hrest

theorem Stocked.release (h : Stocked p) {obj : ℕ}
    (hobj : obj ≠ 0 → obj ∈ p.allocated ∧ obj ∉ p.mPool) : Stocked (p.release obj) := by
  unfold ObjectPool.release
  split
  · next hnull =>
    obtain ⟨hmem, hout⟩ := hobj hnull
    refine ⟨h.nodup, h.address, List.nodup_cons.mpr ⟨hout, h.pool_nodup⟩,
      List.cons_subset.mpr ⟨hmem, h.pool_subset⟩, ?_⟩
    intro ptr hptr
    have hdestroyed := h.destroyed ptr hptr
    by_cases heq : ptr = obj
    · subst heq
      simp [hdestroyed]
    · simpa [heq, Ne.symm heq] using hdestroyed
  · exact h

end Stock

/-- Counts the object `ptr`. -/
def single (ptr : ℕ) : ℕ → ℕ := fun obj => if obj = ptr then 1 else 0

theorem stackWeight_single (ptr : ℕ) (l : List ℕ) : stackWeight (single ptr) l = l.count ptr :=
  stackWeight_count ptr l

/-- What the pool knows of its objects holds in every reached state. -/
structure Owned (s : ObjectConf T) : Prop where
  stocked : Stocked s.mem
  placed : Placed s

omit [DecidableEq T] in
/-- An allocated object is at exactly one place, any other at none. -/
theorem Owned.count {s : ObjectConf T} (h : Owned s) {ptr : ℕ} (hptr : ptr ≠ 0) :
    s.mem.mPool.count ptr + handedOut (single ptr) s + reserved (single ptr) s =
      if ptr ∈ s.mem.allocated then 1 else 0 := by
  have hplaced := h.placed (single ptr) (if_neg (Ne.symm hptr))
  rw [stackWeight_single, stackWeight_single] at hplaced
  rw [← hplaced]
  split
  · next hmem => exact List.count_eq_one_of_mem h.stocked.nodup hmem
  · next hmem => exact List.count_eq_zero_of_not_mem hmem

omit [DecidableEq T] in
/-- An object that a thread is about to put into the pool is allocated and not in the pool. -/
theorem Owned.held {s : ObjectConf T} (h : Owned s) {t : T} {f : ObjectFrame}
    {fs : List ObjectFrame} (hf : s.frames t = f :: fs) {obj : ℕ} (hnull : obj ≠ 0)
    (hobj : 0 < f.gives (single obj) + f.keeps (single obj)) :
    obj ∈ s.mem.allocated ∧ obj ∉ s.mem.mPool := by
  have hgives := top_le_weight (ObjectFrame.gives (single obj)) hf
  have hkeeps := top_le_weight (ObjectFrame.keeps (single obj)) hf
  have hcount := h.count hnull
  simp only [handedOut, reserved] at hcount
  split at hcount
  · next hmem =>
    refine ⟨hmem, ?_⟩
    intro hpool
    have hpos := List.count_pos_iff.mpr hpool
    omega
  · omega

theorem Owned.step {s : ObjectConf T} {t : T} {old fs new : List ObjectFrame} {p : ObjectPool}
    (hs : Owned s) (hf : s.frames t = old ++ fs) (hstep : ObjectStep s.mem old p new) :
    Owned ⟨p, Function.update s.frames t (new ++ fs)⟩ := by
  have hstocked := hs.stocked
  refine ⟨?_, hs.placed.step hf hstep⟩
  cases hstep with
  | new raw ptr p' hraw hnew =>
    have hnext := hstocked.new hraw hnew
    exact ⟨hnext.nodup, hnext.address, hnext.pool_nodup, hnext.pool_subset, hnext.destroyed⟩
  | acquire raw row p' hraw hnew => exact hstocked.new hraw hnew
  | fill raws temp p' hfill | badAlloc raws temp p' hfill => exact hstocked.fill hfill
  | release obj =>
    apply hstocked.release
    intro hnull
    exact hs.held hf hnull (by simp [ObjectFrame.gives, ObjectFrame.given, single])
  | releaseNext ptr temp size =>
    apply hstocked.release
    intro hnull
    exact hs.held hf hnull (by simp [ObjectFrame.keeps, ObjectFrame.temp, single])
  | _ =>
    exact ⟨hstocked.nodup, hstocked.address, hstocked.pool_nodup, hstocked.pool_subset,
      hstocked.destroyed⟩

theorem Owned.next {s s' : ObjectConf T} {a : Action T ObjectChoice} (hs : Owned s)
    (h : objectMachine.next s a = some s') : Owned s' := by
  obtain ⟨t, old, fs, p, new, hf, hstep, rfl, _⟩ := object_next h
  exact hs.step hf hstep

omit [DecidableEq T] in
theorem owned_start : Owned (objectStart : ObjectConf T) := by
  refine ⟨⟨List.nodup_nil, by simp [objectStart], List.nodup_nil, List.Subset.refl _,
    by simp [objectStart]⟩, ?_⟩
  intro v _
  simp [objectStart, handedOut, reserved]

/-- Live handles to the object `ptr`. -/
def handles (s : ObjectConf T) (ptr : ℕ) : ℕ := handedOut (single ptr) s

/-- No object is handed out twice, and none is lost. -/
structure HandedOutOnce (s : ObjectConf T) : Prop where
  pool_nodup : s.mem.mPool.Nodup
  pool_free : ∀ ptr ∈ s.mem.mPool, handles s ptr = 0
  one_handle : ∀ ptr, ptr ≠ 0 → handles s ptr ≤ 1
  conserved : ∀ ptr ∈ s.mem.allocated, ptr ∈ s.mem.mPool ∨ handles s ptr = 1 ∨
    ∃ t, ∃ f ∈ s.frames t, ptr ∈ f.temp
  destroyed : ∀ ptr ∈ s.mem.mPool, s.mem.destroyed ptr = 1

omit [DecidableEq T] in
theorem Owned.handedOutOnce {s : ObjectConf T} (h : Owned s) : HandedOutOnce s := by
  have hstocked := h.stocked
  refine ⟨hstocked.pool_nodup, ?_, ?_, ?_, ?_⟩
  · intro ptr hptr
    have hmem := hstocked.pool_subset hptr
    have hcount := h.count (hstocked.address ptr hmem).1
    have hpos := List.count_pos_iff.mpr hptr
    rw [if_pos hmem] at hcount
    simp only [handles]
    omega
  · intro ptr hnull
    have hcount := h.count hnull
    simp only [handles]
    split at hcount <;> omega
  · intro ptr hmem
    have hcount := h.count (hstocked.address ptr hmem).1
    rw [if_pos hmem] at hcount
    by_cases hpool : ptr ∈ s.mem.mPool
    · exact .inl hpool
    by_cases hhandle : handles s ptr = 1
    · exact .inr (.inl hhandle)
    refine .inr (.inr ?_)
    have hout := List.count_eq_zero_of_not_mem hpool
    have hreserved : reserved (single ptr) s ≠ 0 := by
      simp only [handles] at hhandle
      omega
    by_contra hnone
    apply hreserved
    apply (weight_eq_zero _ _).mpr
    intro t f hf
    rw [ObjectFrame.keeps, stackWeight_single]
    exact List.count_eq_zero_of_not_mem fun hkept => hnone ⟨t, f, hf, hkept⟩
  · intro ptr hptr
    rw [hstocked.destroyed ptr (hstocked.pool_subset hptr)]
    exact List.count_eq_one_of_mem hstocked.pool_nodup hptr

omit [DecidableEq T] in
/-- The object that `New` hands out is in nobody's hands. -/
theorem Owned.new_unheld {s : ObjectConf T} (h : Owned s) {raw ptr : ℕ} {p : ObjectPool}
    (hraw : s.mem.answers raw) (hnew : s.mem.new raw = some (p, ptr)) : handles s ptr = 0 := by
  rcases ObjectPool.new_cases hnew with ⟨rest, htop, _⟩ | ⟨_, hnull, rfl, _⟩
  · apply h.handedOutOnce.pool_free
    rw [htop]
    exact List.mem_cons_self
  · have hcount := h.count hnull
    rw [if_neg (hraw.resolve_left hnull).2] at hcount
    simp only [handles]
    omega

/-- In no run, on any number of threads, is an object handed out twice or lost. -/
theorem object_handed_out_once {s : ObjectConf T}
    (h : objectMachine.Reach (fun _ _ => True) objectStart s) : HandedOutOnce s := by
  apply Owned.handedOutOnce
  apply h.invariant Owned owned_start
  intro s a s' _ hs _ hnext
  exact hs.next hnext

/-- `Reserve(2)` on one thread, of which one object is acquired by the other, which also makes an
object and gives it back. -/
def reserveAndAcquire : List (Action Bool ObjectChoice) :=
  [.enter true (.callReserve 2), .step true (.mallocs [8, 16]), .step true .go,
    .enter false .callAcquire, .step false (.malloc 0), .step false .go,
    .enter false .callNew, .step false (.malloc 24), .enter false (.callDelete 24),
    .step false .go]

theorem reserveAndAcquire_runs : (objectMachine.run objectStart reserveAndAcquire).isSome := by
  decide +kernel

theorem reserveAndAcquire_once :
    HandedOutOnce (objectMachine.final objectStart reserveAndAcquire reserveAndAcquire_runs) :=
  object_handed_out_once (objectMachine.reach_final _ _ _)

end ServerCore.Pools
