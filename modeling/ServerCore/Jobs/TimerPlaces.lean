import ServerCore.Jobs.NoNesting

namespace ServerCore.Jobs

open Framework

variable {T Q J : Type}

namespace TimedFrame

/-- The items that a `Distribute` holds. -/
def items : TimedFrame T Q J → List (Item Q J)
  | .timer (.collect _ items) | .timer (.deliver _ items) => items
  | .timer (.compare _ items item) | .timer (.delete _ item items) => item :: items
  | _ => []

/-- The `JobData` that a thread holds, each with its address. -/
def entries (f : TimedFrame T Q J) : List (ℕ × JobData Q J) :=
  match f with
  | .timer (.insert _ jobData data) => [(jobData, data)]
  | f => f.items.map fun item => (item.jobData, item.data)

/-- Positions of a `Distribute` that has set `mIsDistributing`. -/
def distributing : TimedFrame T Q J → ℕ
  | .timer (.collect ..) | .timer (.compare ..) | .timer (.deliver ..) | .timer (.delete ..) => 1
  | _ => 0

/-- The item whose `JobData` is deleted next. -/
def leaving : TimedFrame T Q J → List (Item Q J)
  | .timer (.delete _ item _) => [item]
  | _ => []

/-- What `Distribute` has collected is due. -/
def due : TimedFrame T Q J → Prop
  | .timer (.collect now items) | .timer (.deliver now items)
  | .timer (.compare now items _) => ∀ x ∈ items, x.executeTick ≤ now
  | .timer (.delete now item items) => ∀ x ∈ item :: items, x.executeTick ≤ now
  | _ => True

variable [DecidableEq Q] [DecidableEq J]

def held (x : Item Q J) (f : TimedFrame T Q J) : ℕ := f.items.count x

def addressed (a : ℕ) (f : TimedFrame T Q J) : ℕ := (f.entries.map Prod.fst).count a

def deleting (x : Item Q J) (f : TimedFrame T Q J) : ℕ := f.leaving.count x

end TimedFrame

/-- One while `mIsDistributing` is set. -/
def flag (b : Bool) : ℕ := if b then 1 else 0

section Steps

variable [DecidableEq Q] [DecidableEq J] {s s' : TimedMem T Q J} {f : TimerFrame Q J}
  {new : List (TimedFrame T Q J)}

theorem count_erase_add {α : Type} [DecidableEq α] {l : List α} {x : α} (h : x ∈ l) (y : α) :
    (l.erase x).count y + [x].count y = l.count y := by
  have hperm := (List.perm_cons_erase h).count_eq y
  rw [List.count_cons] at hperm
  rw [List.count_singleton]
  omega

/-- No step makes an item, or loses one, but the `push` of `Reserve`. -/
theorem TimerStep.places (h : TimerStep s f s' new) (x : Item Q J) :
    s'.mTimerQueue.count x + stackWeight (TimedFrame.held x) new + s'.finished.count x +
        s.reserved.count x =
      s.mTimerQueue.count x + TimedFrame.held x (.timer f : TimedFrame T Q J) +
        s.finished.count x + s'.reserved.count x := by
  cases h with
  | insert executeTick jobData data =>
    simp only [TimedFrame.held, TimedFrame.items, stackWeight_nil, List.count_nil,
      List.count_cons, List.count_append]
    omega
  | pop now items timerItem hmem =>
    have hcount := count_erase_add hmem x
    simp only [TimedFrame.held, TimedFrame.items, stackWeight_cons, stackWeight_nil,
      List.count_cons, List.count_nil] at hcount ⊢
    omega
  | putBack now items timerItem =>
    simp only [TimedFrame.held, TimedFrame.items, stackWeight_cons, stackWeight_nil,
      List.count_cons]
    omega
  | collect now items timerItem _ =>
    simp only [TimedFrame.held, TimedFrame.items, stackWeight_cons, stackWeight_nil,
      List.count_cons, List.count_append, List.count_nil]
    omega
  | delete now item items =>
    simp only [TimedFrame.held, TimedFrame.items, stackWeight_cons, stackWeight_nil,
      List.count_cons, List.count_append, List.count_nil]
    omega
  | _ => simp [TimedFrame.held, TimedFrame.items]

/-- `mIsDistributing` is handed from the exchange to the store. -/
theorem TimerStep.alone (h : TimerStep s f s' new)
    (hflag : TimedFrame.distributing (.timer f : TimedFrame T Q J) ≤ flag s.mIsDistributing) :
    stackWeight TimedFrame.distributing new + flag s.mIsDistributing =
      TimedFrame.distributing (.timer f : TimedFrame T Q J) + flag s'.mIsDistributing := by
  cases h with
  | busy now hbusy => simp [TimedFrame.distributing]
  | distribute now hfree => simp [TimedFrame.distributing, flag, hfree]
  | done now =>
    have hset : flag s.mIsDistributing = 1 := by
      simp only [TimedFrame.distributing, flag] at hflag ⊢
      split at hflag <;> simp_all
    simp [TimedFrame.distributing, flag] at hset ⊢
    exact hset
  | _ => simp [TimedFrame.distributing]

/-- An item that fires is deleted next, and one that is deleted is finished. -/
theorem TimerStep.firings (h : TimerStep s f s' new) (x : Item Q J) :
    (s'.fired.map Firing.item).count x + s.finished.count x +
        TimedFrame.deleting x (.timer f : TimedFrame T Q J) ≤
      (s.fired.map Firing.item).count x + s'.finished.count x +
        stackWeight (TimedFrame.deleting x) new := by
  cases h with
  | fire now item items data _ =>
    simp only [TimedFrame.deleting, TimedFrame.leaving, List.map_append, List.map_cons,
      List.map_nil, List.count_append, stackWeight_cons, stackWeight_nil, List.count_nil]
    omega
  | delete now item items =>
    simp only [TimedFrame.deleting, TimedFrame.leaving, List.count_append, stackWeight_cons,
      stackWeight_nil, List.count_nil]
    omega
  | _ => simp [TimedFrame.deleting, TimedFrame.leaving]

end Steps

namespace ObjectPool

variable {α : Type}

/-- One for an address that was allocated. -/
def allocated (p : ObjectPool α) (a : ℕ) : ℕ := if a < p.mAllocCount then 1 else 0

/-- `New` hands out an address that `mPool` held, or one that was not allocated before. -/
theorem New_count (p : ObjectPool α) (x : α) (a : ℕ) :
    (p.New x).2.mPool.count a + [(p.New x).1].count a + p.allocated a =
      p.mPool.count a + (p.New x).2.allocated a := by
  unfold New
  split
  · next hnil =>
    rw [hnil, List.count_singleton]
    simp only [List.count_nil, allocated, beq_iff_eq]
    split <;> split <;> split <;> omega
  · next ptr rest hcons =>
    simp only [hcons, List.count_cons, List.count_nil, allocated]
    omega

theorem Delete_allocated (p : ObjectPool α) (obj a : ℕ) :
    (p.Delete obj).allocated a = p.allocated a := rfl

theorem Delete_count (p : ObjectPool α) (obj a : ℕ) :
    (p.Delete obj).mPool.count a = p.mPool.count a + [obj].count a := by
  simp only [Delete, List.count_cons, List.count_nil]
  omega

theorem New_heap (p : ObjectPool α) (x : α) :
    (p.New x).2.heap = Function.update p.heap (p.New x).1 (some x) := by
  unfold New
  split <;> rfl

theorem allocated_le (p : ObjectPool α) (a : ℕ) : p.allocated a ≤ 1 := by
  unfold allocated
  split <;> omega

/-- `New` does not overwrite what `n` places refer to. -/
theorem New_other (p : ObjectPool α) (x : α) {a n : ℕ} (hused : 0 < n)
    (total : n + p.mPool.count a = p.allocated a) : (p.New x).2.heap a = p.heap a := by
  have hne : a ≠ (p.New x).1 := by
    rintro rfl
    have hcount := p.New_count x (p.New x).1
    have hle := (p.New x).2.allocated_le (p.New x).1
    rw [List.count_singleton_self] at hcount
    omega
  rw [New_heap, Function.update_of_ne hne]

/-- `Delete` does not destroy what another place refers to. -/
theorem Delete_other (p : ObjectPool α) (obj : ℕ) {a n : ℕ} (hused : 0 < n)
    (total : n + [obj].count a ≤ p.allocated a) : (p.Delete obj).heap a = p.heap a := by
  have hne : a ≠ obj := by
    rintro rfl
    have hle := p.allocated_le a
    rw [List.count_singleton_self] at total
    omega
  exact Function.update_of_ne hne _ _

end ObjectPool

section Heap

variable [DecidableEq Q] [DecidableEq J] {s s' : TimedMem T Q J} {f : TimerFrame Q J}
  {new : List (TimedFrame T Q J)}

/-- How often the queue refers to an address. -/
def queued (a : ℕ) (q : List (Item Q J)) : ℕ := (q.map Item.jobData).count a

omit [DecidableEq Q] [DecidableEq J] in
theorem queued_pos {q : List (Item Q J)} {x : Item Q J} (hx : x ∈ q) : 0 < queued x.jobData q :=
  List.count_pos_iff.mpr (List.mem_map_of_mem hx)

/-- An address is handed on with its item, taken by `New` and given back by `Delete`. -/
theorem TimerStep.addresses (h : TimerStep s f s' new) (a : ℕ) :
    queued a s'.mTimerQueue + stackWeight (TimedFrame.addressed a) new + s'.pool.mPool.count a +
        s.pool.allocated a =
      queued a s.mTimerQueue + TimedFrame.addressed a (.timer f : TimedFrame T Q J) +
        s.pool.mPool.count a + s'.pool.allocated a := by
  cases h with
  | new executeTick owner job =>
    have hcount := s.pool.New_count ⟨owner, job⟩ a
    simp only [TimedFrame.addressed, TimedFrame.entries, TimedFrame.items, List.map_nil,
      List.map_cons, stackWeight_cons, stackWeight_nil, List.count_nil]
    omega
  | insert executeTick jobData data =>
    simp only [queued, TimedFrame.addressed, TimedFrame.entries, List.map_cons, List.map_nil,
      stackWeight_nil, List.count_cons, List.count_nil]
    omega
  | pop now items timerItem hmem =>
    have hcount := ((List.perm_cons_erase hmem).map Item.jobData).count_eq a
    simp only [queued, TimedFrame.addressed, TimedFrame.entries, TimedFrame.items, List.map_cons,
      List.map_map, Function.comp_def, stackWeight_cons, stackWeight_nil, List.count_cons]
      at hcount ⊢
    omega
  | putBack now items timerItem =>
    simp only [queued, TimedFrame.addressed, TimedFrame.entries, TimedFrame.items, List.map_cons,
      List.map_map, Function.comp_def, stackWeight_cons, stackWeight_nil, List.count_cons]
    omega
  | collect now items timerItem _ =>
    simp only [TimedFrame.addressed, TimedFrame.entries, TimedFrame.items, List.map_cons,
      List.map_append, List.map_nil, List.map_map, Function.comp_def, stackWeight_cons,
      stackWeight_nil, List.count_cons, List.count_append, List.count_nil]
    omega
  | delete now item items =>
    simp only [TimedFrame.addressed, TimedFrame.entries, TimedFrame.items, List.map_cons,
      List.map_map, Function.comp_def, stackWeight_cons, stackWeight_nil, List.count_cons,
      ObjectPool.Delete_count, ObjectPool.Delete_allocated, List.count_nil]
    omega
  | _ => simp [TimedFrame.addressed, TimedFrame.entries, TimedFrame.items]

/-- `JobData` that something refers to is neither overwritten nor destroyed. -/
theorem TimerStep.heap (h : TimerStep s f s' new) (others : ℕ → ℕ)
    (total : ∀ a, queued a s.mTimerQueue + TimedFrame.addressed a (.timer f : TimedFrame T Q J) +
      others a + s.pool.mPool.count a = s.pool.allocated a)
    (hqueue : ∀ x ∈ s.mTimerQueue, s.pool.heap x.jobData = some x.data)
    (hf : ∀ e ∈ (TimedFrame.timer f : TimedFrame T Q J).entries, s.pool.heap e.1 = some e.2) :
    (∀ x ∈ s'.mTimerQueue, s'.pool.heap x.jobData = some x.data) ∧
    (∀ g ∈ new, ∀ e ∈ g.entries, s'.pool.heap e.1 = some e.2) ∧
    ∀ a, others a ≠ 0 → s'.pool.heap a = s.pool.heap a := by
  cases h with
  | new executeTick owner job =>
    refine ⟨?_, ?_, ?_⟩
    · intro x hx
      have hused : 0 < queued x.jobData s.mTimerQueue := queued_pos hx
      have htotal := total x.jobData
      apply (s.pool.New_other ⟨owner, job⟩ _ htotal).trans (hqueue x hx)
      omega
    · intro g hg e he
      obtain rfl := List.mem_singleton.mp hg
      obtain rfl := List.mem_singleton.mp he
      show (s.pool.New ⟨owner, job⟩).2.heap _ = _
      rw [ObjectPool.New_heap, Function.update_self]
    · intro a ha
      apply s.pool.New_other ⟨owner, job⟩ _ (total a)
      omega
  | delete now item items =>
    have hself (a : ℕ) : TimedFrame.addressed a
        (.timer (.delete now item items) : TimedFrame T Q J) =
          queued a items + [item.jobData].count a := by
      simp [TimedFrame.addressed, TimedFrame.entries, TimedFrame.items, queued, Function.comp_def,
        List.count_cons]
    refine ⟨?_, ?_, ?_⟩
    · intro x hx
      have hused : 0 < queued x.jobData s.mTimerQueue := queued_pos hx
      have htotal := total x.jobData
      rw [hself] at htotal
      apply (s.pool.Delete_other item.jobData hused _).trans (hqueue x hx)
      omega
    · intro g hg e he
      obtain rfl := List.mem_singleton.mp hg
      obtain ⟨x, hx, rfl⟩ := List.mem_map.mp he
      have hused : 0 < queued x.jobData items := queued_pos hx
      have htotal := total x.jobData
      rw [hself] at htotal
      have hkept : s.pool.heap x.jobData = some x.data :=
        hf (x.jobData, x.data) (List.mem_map_of_mem (List.mem_cons_of_mem item hx))
      apply (s.pool.Delete_other item.jobData hused _).trans hkept
      omega
    · intro a ha
      have htotal := total a
      rw [hself] at htotal
      apply s.pool.Delete_other item.jobData (Nat.pos_of_ne_zero ha)
      omega
  | insert executeTick jobData data =>
    refine ⟨?_, by simp, fun _ _ => rfl⟩
    intro x hx
    rcases List.mem_cons.mp hx with rfl | hx
    · exact hf (jobData, data) (List.mem_singleton.mpr rfl)
    · exact hqueue x hx
  | pop now items timerItem hmem =>
    refine ⟨fun x hx => hqueue x (List.mem_of_mem_erase hx), ?_, fun _ _ => rfl⟩
    intro g hg e he
    obtain rfl := List.mem_singleton.mp hg
    obtain ⟨x, hx, rfl⟩ := List.mem_map.mp he
    rcases List.mem_cons.mp hx with rfl | hx
    · exact hqueue x hmem
    · exact hf _ (List.mem_map_of_mem hx)
  | putBack now items timerItem =>
    refine ⟨?_, ?_, fun _ _ => rfl⟩
    · intro x hx
      rcases List.mem_cons.mp hx with rfl | hx
      · exact hf (x.jobData, x.data) (List.mem_map_of_mem (List.mem_cons_self ..))
      · exact hqueue x hx
    · intro g hg e he
      obtain rfl := List.mem_singleton.mp hg
      obtain ⟨x, hx, rfl⟩ := List.mem_map.mp he
      exact hf _ (List.mem_map_of_mem (List.mem_cons_of_mem timerItem hx))
  | collect now items timerItem _ =>
    refine ⟨hqueue, ?_, fun _ _ => rfl⟩
    intro g hg e he
    obtain rfl := List.mem_singleton.mp hg
    obtain ⟨x, hx, rfl⟩ := List.mem_map.mp he
    have hx' : x ∈ timerItem :: items := by
      rcases List.mem_append.mp hx with hx | hx
      · exact List.mem_cons_of_mem timerItem hx
      · exact List.mem_cons.mpr (.inl (List.mem_singleton.mp hx))
    exact hf _ (List.mem_map_of_mem hx')
  | fire now item items data _ =>
    refine ⟨hqueue, ?_, fun _ _ => rfl⟩
    intro g hg e he
    rcases List.mem_cons.mp hg with rfl | hg
    · cases he
    · obtain rfl := List.mem_singleton.mp hg
      exact hf e he
  | busy now _ => exact ⟨hqueue, by simp, fun _ _ => rfl⟩
  | done now => exact ⟨hqueue, by simp, fun _ _ => rfl⟩
  | _ =>
    refine ⟨hqueue, ?_, fun _ _ => rfl⟩
    intro g hg e he
    obtain rfl := List.mem_singleton.mp hg
    exact hf e he

/-- The item has left for a reason: it was fired, or its owner has expired. -/
def Left (s : TimedMem T Q J) (x : Item Q J) : Prop :=
  x ∈ s.fired.map Firing.item ∨ s.expired x.data.owner = true

/-- The firing was due, and went to the queue and the job that the item was reserved for. -/
def Firing.ok (e : Firing Q J) : Prop :=
  e.item.executeTick ≤ e.now ∧ e.owner = e.item.data.owner ∧ e.job = e.item.data.job

theorem TimerStep.due (h : TimerStep s f s' new)
    (hf : (TimedFrame.timer f : TimedFrame T Q J).due) : ∀ g ∈ new, g.due := by
  cases h with
  | distribute now _ =>
    intro g hg
    obtain rfl := List.mem_singleton.mp hg
    intro x hx
    cases hx
  | collect now items timerItem hdue =>
    intro g hg
    obtain rfl := List.mem_singleton.mp hg
    intro x hx
    rcases List.mem_append.mp hx with hx | hx
    · exact hf x hx
    · exact List.mem_singleton.mp hx ▸ hdue
  | fire now item items data _ =>
    intro g hg
    rcases List.mem_cons.mp hg with rfl | hg
    · trivial
    · obtain rfl := List.mem_singleton.mp hg
      exact hf
  | delete now item items =>
    intro g hg
    obtain rfl := List.mem_singleton.mp hg
    exact fun x hx => hf x (List.mem_cons_of_mem item hx)
  | insert | busy | done => simp
  | _ =>
    intro g hg
    obtain rfl := List.mem_singleton.mp hg
    exact hf

theorem TimerStep.firing_ok (h : TimerStep s f s' new)
    (hf : ∀ e ∈ (TimedFrame.timer f : TimedFrame T Q J).entries, s.pool.heap e.1 = some e.2)
    (hdue : (TimedFrame.timer f : TimedFrame T Q J).due)
    (before : ∀ e ∈ s.fired, e.ok) : ∀ e ∈ s'.fired, e.ok := by
  cases h with
  | fire now item items data hdata =>
    intro e he
    rcases List.mem_append.mp he with he | he
    · exact before e he
    · obtain rfl := List.mem_singleton.mp he
      have hreserved := hf (item.jobData, item.data) (List.mem_map_of_mem (List.mem_cons_self ..))
      obtain rfl : data = item.data := Option.some.inj (hdata.symm.trans hreserved)
      exact ⟨hdue item (List.mem_cons_self ..), rfl, rfl⟩
  | _ => exact before

theorem TimerStep.left (h : TimerStep s f s' new) {x : Item Q J} (hx : Left s x) : Left s' x := by
  cases h with
  | fire now item items data _ =>
    apply hx.imp_left
    intro hmem
    rw [List.map_append]
    exact List.mem_append_left _ hmem
  | _ => exact hx

theorem TimerStep.leaving (h : TimerStep s f s' new)
    (hf : ∀ e ∈ (TimedFrame.timer f : TimedFrame T Q J).entries, s.pool.heap e.1 = some e.2)
    (hleaving : ∀ x ∈ (TimedFrame.timer f : TimedFrame T Q J).leaving, Left s x)
    (hfinished : ∀ x ∈ s.finished, Left s x) :
    (∀ g ∈ new, ∀ x ∈ g.leaving, Left s' x) ∧ ∀ x ∈ s'.finished, Left s' x := by
  cases h with
  | lost now item items data hdata hexpired =>
    refine ⟨?_, hfinished⟩
    intro g hg x hx
    obtain rfl := List.mem_singleton.mp hg
    obtain rfl := List.mem_singleton.mp hx
    have hreserved := hf (x.jobData, x.data) (List.mem_map_of_mem (List.mem_cons_self ..))
    obtain rfl : data = x.data := Option.some.inj (hdata.symm.trans hreserved)
    exact .inr hexpired
  | fire now item items data hdata =>
    constructor
    · intro g hg x hx
      rcases List.mem_cons.mp hg with rfl | hg
      · cases hx
      · obtain rfl := List.mem_singleton.mp hg
        obtain rfl := List.mem_singleton.mp hx
        apply Or.inl
        simp
    · intro x hx
      apply (hfinished x hx).imp_left
      intro hmem
      rw [List.map_append]
      exact List.mem_append_left _ hmem
  | delete now item items =>
    constructor
    · intro g hg x hx
      obtain rfl := List.mem_singleton.mp hg
      cases hx
    · intro x hx
      rcases List.mem_append.mp hx with hx | hx
      · exact hfinished x hx
      · exact hleaving x hx
  | insert | busy | done => exact ⟨by simp, hfinished⟩
  | _ =>
    refine ⟨?_, hfinished⟩
    intro g hg x hx
    obtain rfl := List.mem_singleton.mp hg
    cases hx

end Heap

/-- What holds between any two atomic steps. -/
structure TimerInv [Fintype T] [DecidableEq Q] [DecidableEq J]
    (s : Conf T (TimedMem T Q J) (TimedFrame T Q J)) : Prop where
  numbers : s.mem.reserved.map Item.number = List.range s.mem.reserved.length
  places : ∀ x, s.mem.mTimerQueue.count x + weight (TimedFrame.held x) s.frames +
    s.mem.finished.count x = s.mem.reserved.count x
  alone : weight TimedFrame.distributing s.frames = flag s.mem.mIsDistributing
  addresses : ∀ a, queued a s.mem.mTimerQueue + weight (TimedFrame.addressed a) s.frames +
    s.mem.pool.mPool.count a = s.mem.pool.allocated a
  queue : ∀ x ∈ s.mem.mTimerQueue, s.mem.pool.heap x.jobData = some x.data
  entries : ∀ t, ∀ f ∈ s.frames t, ∀ e ∈ f.entries, s.mem.pool.heap e.1 = some e.2
  due : ∀ t, ∀ f ∈ s.frames t, f.due
  firings : ∀ x, (s.mem.fired.map Firing.item).count x ≤ s.mem.finished.count x +
    weight (TimedFrame.deleting x) s.frames
  fired : ∀ e ∈ s.mem.fired, e.ok
  leaving : ∀ t, ∀ f ∈ s.frames t, ∀ x ∈ f.leaving, Left s.mem x
  finished : ∀ x ∈ s.mem.finished, Left s.mem x

/-- A frame that holds nothing of the timer. -/
structure TimedFrame.Idle (f : TimedFrame T Q J) : Prop where
  items : f.items = []
  entries : f.entries = []
  distributing : f.distributing = 0
  leaving : f.leaving = []
  due : f.due

theorem idle_job (f : Frame T Q J) : (TimedFrame.job f).Idle := ⟨rfl, rfl, rfl, rfl, trivial⟩

theorem idle_reserve (tickAfter : ℕ) (owner : Q) (job : J) :
    (TimedFrame.timer (.reserve tickAfter owner job) : TimedFrame T Q J).Idle :=
  ⟨rfl, rfl, rfl, rfl, trivial⟩

theorem idle_distribute (now : ℕ) : (TimedFrame.timer (.distribute now) : TimedFrame T Q J).Idle :=
  ⟨rfl, rfl, rfl, rfl, trivial⟩

section Run

variable [Fintype T] [DecidableEq Q] [DecidableEq J]
  {s : Conf T (TimedMem T Q J) (TimedFrame T Q J)}

/-- Frames that hold nothing may come and go. -/
theorem TimerInv.quiet (h : TimerInv s) (jobs : Mem T Q J) {frames : T → List (TimedFrame T Q J)}
    (hweight : ∀ w : TimedFrame T Q J → ℕ, (∀ f, f.Idle → w f = 0) →
      weight w frames = weight w s.frames)
    (hmem : ∀ t, ∀ f ∈ frames t, f ∈ s.frames t ∨ f.Idle) :
    TimerInv ⟨{ s.mem with jobs := jobs }, frames⟩ := by
  constructor
  · exact h.numbers
  · intro x
    have hw := hweight (TimedFrame.held x) fun f hf => by simp [TimedFrame.held, hf.items]
    show _ + weight (TimedFrame.held x) frames + _ = _
    rw [hw]
    exact h.places x
  · have hw := hweight TimedFrame.distributing fun f hf => hf.distributing
    exact hw.trans h.alone
  · intro a
    have hw := hweight (TimedFrame.addressed a) fun f hf => by
      simp [TimedFrame.addressed, hf.entries]
    show _ + weight (TimedFrame.addressed a) frames + _ = _
    rw [hw]
    exact h.addresses a
  · exact h.queue
  · intro t f hf e he
    rcases hmem t f hf with hf | hf
    · exact h.entries t f hf e he
    · rw [hf.entries] at he
      cases he
  · intro t f hf
    rcases hmem t f hf with hf | hf
    · exact h.due t f hf
    · exact hf.due
  · intro x
    have hw := hweight (TimedFrame.deleting x) fun f hf => by
      simp [TimedFrame.deleting, hf.leaving]
    show _ ≤ _ + weight (TimedFrame.deleting x) frames
    rw [hw]
    exact h.firings x
  · exact h.fired
  · intro t f hf x hx
    rcases hmem t f hf with hf | hf
    · exact h.leaving t f hf x hx
    · rw [hf.leaving] at hx
      cases hx
  · exact h.finished

variable [DecidableEq T]

/-- A step of the timer keeps the invariant. -/
theorem TimerInv.timer (h : TimerInv s) {t : T} {f : TimerFrame Q J}
    {fs new : List (TimedFrame T Q J)} {mem : TimedMem T Q J} (hs : s.frames t = .timer f :: fs)
    (hf : TimerStep s.mem f mem new) : TimerInv ⟨mem, Function.update s.frames t (new ++ fs)⟩ := by
  have hmem : TimedFrame.timer f ∈ s.frames t := by simp [hs]
  have weights (w : TimedFrame T Q J → ℕ) :
      weight w (Function.update s.frames t (new ++ fs)) + w (.timer f) =
        weight w s.frames + stackWeight w new := weight_step w hs new
  have share (w : TimedFrame T Q J → ℕ) : w (.timer f) ≤ weight w s.frames := top_le_weight w hs
  have total (a : ℕ) : queued a s.mem.mTimerQueue +
      TimedFrame.addressed a (.timer f : TimedFrame T Q J) +
      (weight (TimedFrame.addressed a) s.frames -
        TimedFrame.addressed a (.timer f : TimedFrame T Q J)) +
      s.mem.pool.mPool.count a = s.mem.pool.allocated a := by
    have hs := share (TimedFrame.addressed a)
    have ha := h.addresses a
    omega
  obtain ⟨hqueue, hentries, hothers⟩ := hf.heap _ total h.queue (h.entries t _ hmem)
  obtain ⟨hleaving, hfinished⟩ := hf.leaving (h.entries t _ hmem) (h.leaving t _ hmem) h.finished
  constructor
  · cases hf with
    | insert executeTick jobData data =>
      simp [h.numbers, List.range_succ]
    | _ => exact h.numbers
  · intro x
    have hp := hf.places x
    have hw := weights (TimedFrame.held x)
    have hb := h.places x
    dsimp only
    omega
  · have hle := share TimedFrame.distributing
    rw [h.alone] at hle
    have ha := hf.alone hle
    have hw := weights TimedFrame.distributing
    have hb := h.alone
    dsimp only
    omega
  · intro a
    have ha := hf.addresses a
    have hw := weights (TimedFrame.addressed a)
    have hb := h.addresses a
    dsimp only
    omega
  · exact hqueue
  · intro u g hg e he
    rcases mem_update new hg with ⟨_, hg⟩ | other
    · exact hentries g hg e he
    · have two := other.weight hs (TimedFrame.addressed e.1)
      have hpos : 0 < TimedFrame.addressed e.1 g :=
        List.count_pos_iff.mpr (List.mem_map_of_mem he)
      show mem.pool.heap e.1 = _
      rw [hothers e.1 (by omega)]
      exact h.entries u g (other.mem hs) e he
  · intro u g hg
    rcases mem_update new hg with ⟨_, hg⟩ | other
    · exact hf.due (h.due t _ hmem) g hg
    · exact h.due u g (other.mem hs)
  · intro x
    have hp := hf.firings x
    have hw := weights (TimedFrame.deleting x)
    have hb := h.firings x
    dsimp only
    omega
  · exact hf.firing_ok (h.entries t _ hmem) (h.due t _ hmem) h.fired
  · intro u g hg x hx
    rcases mem_update new hg with ⟨_, hg⟩ | other
    · exact hleaving g hg x hx
    · exact hf.left (h.leaving u g (other.mem hs) x hx)
  · exact hfinished

/-- A step of a job queue, or a call of `DoTimer` by a job, holds nothing of the timer. -/
theorem TimerInv.idle (h : TimerInv s) {t : T} {f : TimedFrame T Q J}
    {fs new : List (TimedFrame T Q J)} (hs : s.frames t = f :: fs) (hf : f.Idle)
    (hnew : ∀ g ∈ new, g.Idle) (jobs : Mem T Q J) :
    TimerInv ⟨{ s.mem with jobs := jobs }, Function.update s.frames t (new ++ fs)⟩ := by
  apply h.quiet jobs
  · intro w hw
    exact weight_replace hs (hw f hf) fun g hg => hw g (hnew g hg)
  · intro u g hg
    rcases mem_update new hg with ⟨_, hg⟩ | other
    · exact .inr (hnew g hg)
    · exact .inl (other.mem hs)

theorem TimerInv.next {s' : Conf T (TimedMem T Q J) (TimedFrame T Q J)}
    {a : Action T (TimedChoice T Q J)} (h : TimerInv s) (hs' : timedMachine.next s a = some s') :
    TimerInv s' := by
  rcases Machine.next_cases hs' with ⟨t, c, mem, f, rfl, he, rfl⟩ |
    ⟨t, c, f, fs, mem, new, rfl, hs, he, rfl⟩ | ⟨c, mem, rfl, he, rfl⟩
  · obtain ⟨_, hmem, hf⟩ := timedEnter_spec he
    obtain rfl : mem = s.mem := hmem
    have hidle : f.Idle := by
      rcases hf with ⟨q, job, pushOnly, hf⟩ | hf | ⟨tickAfter, owner, job, hf⟩ | ⟨now, hf⟩ <;>
        obtain rfl := hf
      · exact idle_job _
      · exact idle_job _
      · exact idle_reserve ..
      · exact idle_distribute _
    apply h.quiet s.mem.jobs
    · intro w hw
      exact weight_push s.frames t (hw f hidle)
    · intro u g hg
      rcases mem_push hg with rfl | hg
      · exact .inr hidle
      · exact .inl hg
  · cases timedStep_spec he with
    | job f jobs new _ =>
      apply h.idle hs (idle_job f)
      intro g hg
      obtain ⟨g, _, rfl⟩ := List.mem_map.mp hg
      exact idle_job g
    | callReserve q jobCount jobs tickAfter owner job =>
      apply h.idle hs (idle_job _)
      intro g hg
      rcases List.mem_cons.mp hg with rfl | hg
      · exact idle_reserve ..
      · obtain rfl := List.mem_singleton.mp hg
        exact idle_job _
    | timer f _ _ hf => exact h.timer hs hf
  · rcases timedEnv_spec he with ⟨ticks, rfl⟩ | ⟨q, rfl⟩
    · exact h.quiet _ (fun w _ => rfl) fun t f hf => .inl hf
    · have left (x : Item Q J) (hx : Left s.mem x) :
          Left { s.mem with expired := Function.update s.mem.expired q true } x := by
        apply hx.imp_right
        intro hx
        by_cases hq : x.data.owner = q
        · rw [hq]
          exact Function.update_self ..
        · exact (Function.update_of_ne hq _ _).trans hx
      exact ⟨h.numbers, h.places, h.alone, h.addresses, h.queue, h.entries, h.due, h.firings,
        h.fired, fun t f hf x hx => left x (h.leaving t f hf x hx),
        fun x hx => left x (h.finished x hx)⟩

omit [DecidableEq T] in
theorem TimerInv.start : TimerInv (timedStart : Conf T (TimedMem T Q J) (TimedFrame T Q J)) := by
  constructor <;> simp [timedStart, TimedMem.init, flag, queued, ObjectPool.allocated]

theorem TimedReachable.inv (h : TimedReachable s) : TimerInv s :=
  Machine.Reach.invariant TimerInv h .start fun _ _ _ _ hi _ hs => hi.next hs

omit [DecidableEq T] in
theorem TimerInv.reserved_nodup (h : TimerInv s) : s.mem.reserved.Nodup := by
  apply List.Nodup.of_map Item.number
  rw [h.numbers]
  exact List.nodup_range

omit [DecidableEq T] in
/-- What is deleted next is held. -/
theorem deleting_le (x : Item Q J) (frames : T → List (TimedFrame T Q J)) :
    weight (TimedFrame.deleting x) frames ≤ weight (TimedFrame.held x) frames := by
  apply weight_mono
  intro f
  unfold TimedFrame.deleting TimedFrame.held TimedFrame.leaving
  split
  · exact List.Sublist.count_le x (List.singleton_sublist.mpr (List.mem_cons_self ..))
  · simp

end Run

/-- One timer is reserved; a later `Distribute` fires it, runs its job and finishes it. -/
def fireOnce : List (Action Unit (TimedChoice Unit Bool ℕ)) :=
  [.enter () (.callReserve 5 true 1), .step () (.clock 100), .step () .go, .step () .go,
    .enter () (.callDistribute 200), .step () .go, .step () (.pop (some ⟨105, 0, 0, ⟨true, 1⟩⟩)),
    .step () .go, .step () (.pop none), .step () .go, .step () (.job .go), .step () (.job .go),
    .step () (.job .go), .step () (.job .go), .step () (.job (.take [()])), .step () (.job .go),
    .step () (.job .go), .step () (.job .go), .step () .go, .step () .go]

end ServerCore.Jobs
