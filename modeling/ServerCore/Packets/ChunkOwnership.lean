import ServerCore.Packets.PacketSteps

namespace ServerCore.Packets

open Framework ConcurrentQueue

variable {T C : Type} [DecidableEq T] [DecidableEq C]

namespace Frame

/-- The frame holds chunk `c` and will hand it on whole. -/
def holds (c : C) : Frame C → ℕ
  | .assign _ c' _ | .push c' => if c' = c then 1 else 0
  | _ => 0

/-- The frame is about to give up a shared pointer to chunk `c`. -/
def gives (c : C) : Frame C → ℕ
  | .release c' | .dropped (some c') => if c' = c then 1 else 0
  | _ => 0

/-- The frame is in the deleter of chunk `c`. -/
def deletes (c : C) : Frame C → ℕ
  | .pushGlobal c' => if c' = c then 1 else 0
  | _ => 0

theorem plain_holds {f : Frame C} (h : f.plain = true) (c : C) :
    f.holds c = 0 ∧ f.gives c = 0 ∧ f.deletes c = 0 := by
  cases f <;> first | exact ⟨rfl, rfl, rfl⟩ | simp [plain] at h

end Frame

@[simp] theorem stackWeight_holds_releaseFrames (c : C) (o : Option C) :
    stackWeight (Frame.holds c) (releaseFrames o) = 0 := by
  cases o <;> rfl

@[simp] theorem stackWeight_deletes_releaseFrames (c : C) (o : Option C) :
    stackWeight (Frame.deletes c) (releaseFrames o) = 0 := by
  cases o <;> rfl

@[simp] theorem stackWeight_gives_releaseFrames (c : C) (o : Option C) :
    stackWeight (Frame.gives c) (releaseFrames o) = if o = some c then 1 else 0 := by
  cases o <;> simp [releaseFrames, Frame.gives]

/-- The packet is live and keeps chunk `c`. -/
def Packet.keeps (c : C) (p : Packet C) : Bool :=
  decide (p.mOwnerChunk = c) && decide (0 < p.useCount)

namespace PacketMemory

/-- One for a chunk that does not exist. -/
def absent (σ : PacketMemory T C) (c : C) : ℕ := if (σ.chunk c).constructed then 0 else 1

/-- Shared pointers to chunk `c` in `mPacketChunks`. -/
def queued (σ : PacketMemory T C) (c : C) : ℕ := σ.mPacketChunks.countP fun e => e.2 = c

/-- Threads whose `LPacketChunk` is chunk `c`. -/
def current [Fintype T] (σ : PacketMemory T C) (c : C) : ℕ :=
  ∑ t, if σ.lPacketChunk t = some c then 1 else 0

/-- Live packets of chunk `c`. -/
def owned (σ : PacketMemory T C) (c : C) : ℕ := σ.packets.countP (Packet.keeps c)

section Counts

variable (σ : PacketMemory T C) (c c' : C) (chunk : PacketChunk) (n : ℕ) (p : Packet C)
  (q : ConcurrentQueue T C) (t : T) (o : Option C)

omit [DecidableEq C] in
@[simp] theorem absent_setLPacketChunk : (σ.setLPacketChunk t o).absent c = σ.absent c := rfl

@[simp] theorem queued_setLPacketChunk : (σ.setLPacketChunk t o).queued c = σ.queued c := rfl

@[simp] theorem owned_setLPacketChunk : (σ.setLPacketChunk t o).owned c = σ.owned c := rfl

theorem current_setLPacketChunk [Fintype T] : (σ.setLPacketChunk t o).current c +
      (if σ.lPacketChunk t = some c then 1 else 0) =
    σ.current c + if o = some c then 1 else 0 :=
  sum_update (fun o => if o = some c then 1 else 0) σ.lPacketChunk t o

omit [DecidableEq T]

omit [DecidableEq C] in
@[simp] theorem absent_setPacket : (σ.setPacket n p).absent c = σ.absent c := rfl

omit [DecidableEq C] in
@[simp] theorem absent_addPacket : (σ.addPacket p).absent c = σ.absent c := rfl

omit [DecidableEq C] in
@[simp] theorem absent_setQueue : (σ.setQueue q).absent c = σ.absent c := rfl

@[simp] theorem queued_setChunk : (σ.setChunk c' chunk).queued c = σ.queued c := rfl

@[simp] theorem queued_setPacket : (σ.setPacket n p).queued c = σ.queued c := rfl

@[simp] theorem queued_addPacket : (σ.addPacket p).queued c = σ.queued c := rfl

@[simp] theorem current_setChunk [Fintype T] :
    (σ.setChunk c' chunk).current c = σ.current c := rfl

@[simp] theorem current_setPacket [Fintype T] : (σ.setPacket n p).current c = σ.current c := rfl

@[simp] theorem current_addPacket [Fintype T] : (σ.addPacket p).current c = σ.current c := rfl

@[simp] theorem current_setQueue [Fintype T] : (σ.setQueue q).current c = σ.current c := rfl

@[simp] theorem owned_setChunk : (σ.setChunk c' chunk).owned c = σ.owned c := rfl

@[simp] theorem owned_setQueue : (σ.setQueue q).owned c = σ.owned c := rfl

@[simp] theorem absent_setChunk : (σ.setChunk c' chunk).absent c =
    if c' = c then (if chunk.constructed then 0 else 1) else σ.absent c := by
  by_cases h : c' = c
  · subst h
    simp [absent]
  · simp [absent, h, Ne.symm h]

@[simp] theorem useCount_setChunk : ((σ.setChunk c' chunk).chunk c).useCount =
    if c' = c then chunk.useCount else (σ.chunk c).useCount := by
  by_cases h : c' = c
  · subst h
    simp
  · simp [h, Ne.symm h]

@[simp] theorem queued_setQueue_enqueue (τ : PacketMemory T C) :
    (τ.setQueue (σ.mPacketChunks.enqueue t c')).queued c =
      σ.queued c + if c' = c then 1 else 0 := by
  simp [queued, ConcurrentQueue.enqueue, List.countP_append, List.countP_singleton]

@[simp] theorem owned_addPacket :
    (σ.addPacket p).owned c = σ.owned c + if p.keeps c then 1 else 0 := by
  simp [owned, List.countP_append, List.countP_singleton]

@[simp] theorem useCount_write (pos : ℕ) (bytes : List UInt8) :
    ((σ.write c' pos bytes).chunk c).useCount = (σ.chunk c).useCount := by
  rw [write, useCount_setChunk]
  split
  · next h => rw [h]
  · rfl

@[simp] theorem absent_write (pos : ℕ) (bytes : List UInt8) :
    (σ.write c' pos bytes).absent c = σ.absent c := by
  rw [write, absent_setChunk]
  split
  · next h => rw [h, absent]
  · rfl

@[simp] theorem queued_write (pos : ℕ) (bytes : List UInt8) :
    (σ.write c' pos bytes).queued c = σ.queued c := rfl

@[simp] theorem current_write [Fintype T] (pos : ℕ) (bytes : List UInt8) :
    (σ.write c' pos bytes).current c = σ.current c := rfl

@[simp] theorem owned_write (pos : ℕ) (bytes : List UInt8) :
    (σ.write c' pos bytes).owned c = σ.owned c := rfl

theorem owned_setPacket (σ : PacketMemory T C) {n : ℕ} {p : Packet C}
    (h : σ.packets[n]? = some p) (q : Packet C) (c : C) :
    (σ.setPacket n q).owned c + (if p.keeps c then 1 else 0) =
      σ.owned c + if q.keeps c then 1 else 0 := by
  obtain ⟨hlt, rfl⟩ := List.getElem?_eq_some_iff.mp h
  have hset := List.countP_set (p := Packet.keeps c) (a := q) hlt
  have hle : (if σ.packets[n].keeps c then 1 else 0) ≤ σ.owned c := by
    cases hk : σ.packets[n].keeps c with
    | false => exact Nat.zero_le _
    | true => exact List.countP_pos_iff.mpr ⟨_, List.getElem_mem hlt, hk⟩
  simp only [owned, setPacket] at hle ⊢
  rw [hset]
  omega

/-- A shared pointer that goes takes its packet along if it is the last. -/
theorem owned_drop {σ : PacketMemory T C} {n : ℕ} {p : Packet C} (h : σ.packets[n]? = some p)
    (c : C) : (σ.drop n p).1.owned c + (σ.drop n p).2.gives c = σ.owned c := by
  have hset := owned_setPacket σ h { p with useCount := p.useCount - 1 } c
  simp only [drop]
  by_cases hone : p.useCount = 1
  · simp [Packet.keeps, hone, Frame.gives] at hset ⊢
    exact hset
  · have hlive : decide (0 < p.useCount - 1) = decide (0 < p.useCount) := by
      rw [decide_eq_decide]
      omega
    have hkeeps : Packet.keeps c { p with useCount := p.useCount - 1 } = p.keeps c := by
      simp only [Packet.keeps, hlive]
    simp only [hone, if_false, Frame.gives]
    rw [hkeeps] at hset
    omega

theorem owned_copy {σ : PacketMemory T C} {n : ℕ} {p : Packet C} (h : σ.packets[n]? = some p)
    (hpos : 0 < p.useCount) (c : C) :
    (σ.setPacket n { p with useCount := p.useCount + 1 }).owned c = σ.owned c := by
  have hset := owned_setPacket σ h { p with useCount := p.useCount + 1 } c
  have hkeeps : Packet.keeps c { p with useCount := p.useCount + 1 } = p.keeps c := by
    simp [Packet.keeps, hpos]
  rw [hkeeps] at hset
  exact Nat.add_right_cancel hset

@[simp] theorem queued_close (writeSize : UInt32) :
    (σ.close n p writeSize).queued c = σ.queued c := rfl

@[simp] theorem current_close [Fintype T] (writeSize : UInt32) :
    (σ.close n p writeSize).current c = σ.current c := rfl

theorem close_counts {σ : PacketMemory T C} {n : ℕ} {p : Packet C}
    (h : σ.packets[n]? = some p) (writeSize : UInt32) (c : C) :
    ((σ.close n p writeSize).chunk c).useCount = (σ.chunk c).useCount ∧
      (σ.close n p writeSize).absent c = σ.absent c ∧
      (σ.close n p writeSize).owned c = σ.owned c := by
  obtain ⟨hu, hc⟩ : (p.close (σ.chunk p.mOwnerChunk) writeSize).2.useCount =
        (σ.chunk p.mOwnerChunk).useCount ∧
      (p.close (σ.chunk p.mOwnerChunk) writeSize).2.constructed =
        (σ.chunk p.mOwnerChunk).constructed := by
    unfold Packet.close PacketChunk.close
    split
    · exact ⟨rfl, rfl⟩
    split <;> exact ⟨rfl, rfl⟩
  have hkeeps (returned : Bool) (bytes : List UInt8) :
      Packet.keeps c { (p.close (σ.chunk p.mOwnerChunk) writeSize).1 with
        returned := returned, bytes := bytes } = p.keeps c := by
    unfold Packet.close
    split <;> rfl
  refine ⟨?_, ?_, ?_⟩
  · simp only [close, setPacket_chunk, useCount_setChunk, hu]
    split
    · next he => rw [he]
    · rfl
  · simp only [close, absent_setPacket, absent_setChunk, hc]
    split
    · next he => rw [he, absent]
    · rfl
  · have hset := owned_setPacket (σ.setChunk p.mOwnerChunk
      (p.close (σ.chunk p.mOwnerChunk) writeSize).2) h
    exact Nat.add_right_cancel ((hset _ c).trans (by rw [hkeeps]; rfl))

end Counts

end PacketMemory

/-- The use count `u` of a chunk against its references: `q` in the queue, `k` in `LPacketChunk`s,
`o` in live packets, `h` and `g` in frames. With `a` for a chunk that does not exist and `d` for
its deleter, the chunk is in one place only, and has no packet while it is handed on. -/
structure Tally (u a q k o h g d : ℕ) : Prop where
  counted : u = q + k + o + h + g
  place : a + q + k + h + d ≤ 1
  unused : 0 < a + d → u = 0
  fresh : 0 < q + h → o = 0

/-- The references to chunk `c` are counted right. -/
def Tracked [Fintype T] (c : C) (s : PacketConf T C) : Prop :=
  Tally (s.mem.chunk c).useCount (s.mem.absent c) (s.mem.queued c) (s.mem.current c)
    (s.mem.owned c) (weight (Frame.holds c) s.frames) (weight (Frame.gives c) s.frames)
    (weight (Frame.deletes c) s.frames)

section

variable [Fintype T]

theorem Tracked.step {c : C} {s : PacketConf T C} {t : T} {old fs new : List (Frame C)}
    {mem : PacketMemory T C} (hs : Tracked c s) (hf : s.frames t = old ++ fs)
    (hstep : PacketStep t s.mem fs old mem new) :
    Tracked c ⟨mem, Function.update s.frames t (new ++ fs)⟩ := by
  have hholds := weight_stack (Frame.holds c) hf new
  have hgives := weight_stack (Frame.gives c) hf new
  have hdeletes := weight_stack (Frame.deletes c) hf new
  obtain ⟨hcounted, hplace, hunused, hfresh⟩ := hs
  simp only [Tracked]
  generalize weight (Frame.holds c) (Function.update s.frames t (new ++ fs)) = h at hholds ⊢
  generalize weight (Frame.gives c) (Function.update s.frames t (new ++ fs)) = g at hgives ⊢
  generalize weight (Frame.deletes c) (Function.update s.frames t (new ++ fs)) = d at hdeletes ⊢
  cases hstep with
  | plain f f' hplain hplain' _ =>
    obtain ⟨h₁, h₂, h₃⟩ := Frame.plain_holds hplain c
    obtain ⟨h₁', h₂', h₃'⟩ := Frame.plain_holds hplain' c
    simp only [stackWeight_cons, stackWeight_nil] at hholds hgives hdeletes
    constructor <;> omega
  | dequeue again i m producer c' rest hperm =>
    have hqueued : s.mem.queued c = (s.mem.setQueue rest).queued c + if c' = c then 1 else 0 := by
      simp [PacketMemory.queued, hperm.countP_eq, List.countP_cons]
    simp [Frame.holds, Frame.gives, Frame.deletes] at hholds hgives hdeletes
    constructor <;> simp <;> omega
  | construct again m c' habsent =>
    by_cases hc : c' = c
    · have ha : s.mem.absent c = 1 := by simp [PacketMemory.absent, ← hc, habsent]
      simp [hc, Frame.holds, Frame.gives, Frame.deletes, PacketChunk.construct] at *
      constructor <;> omega
    · simp [hc, Frame.holds, Frame.gives, Frame.deletes] at hholds hgives hdeletes ⊢
      constructor <;> omega
  | assign again c' m =>
    have hcurrent := s.mem.current_setLPacketChunk c t (some c')
    simp [Frame.holds, Frame.gives, Frame.deletes] at hholds hgives hdeletes hcurrent ⊢
    constructor <;> omega
  | reset again m c' f hl hplain _ =>
    obtain ⟨h₁, h₂, h₃⟩ := Frame.plain_holds hplain c
    simp only [stackWeight_cons, stackWeight_nil, h₁, h₂, h₃] at hholds hgives hdeletes
    simp only [Frame.holds, Frame.gives, Frame.deletes] at hholds hgives hdeletes
    by_cases hc : c' = c
    · have ha : s.mem.absent c = if (s.mem.chunk c).constructed then 0 else 1 := rfl
      simp [hc, PacketChunk.reset]
      constructor <;> omega
    · simp [hc]
      constructor <;> omega
  | chunkOpen m c' hl hopen hfit =>
    simp [Frame.holds, Frame.gives, Frame.deletes] at hholds hgives hdeletes
    by_cases hc : c' = c
    · have ha : s.mem.absent c = if (s.mem.chunk c).constructed then 0 else 1 := rfl
      have hk : 0 < s.mem.current c := by
        refine Finset.sum_pos' (fun _ _ => Nat.zero_le _) ⟨t, Finset.mem_univ t, ?_⟩
        simp [hl, hc]
      simp [hc, Packet.keeps]
      constructor <;> omega
    · simp [hc, Packet.keeps]
      constructor <;> omega
  | header n m p hp =>
    simp [Frame.holds, Frame.gives, Frame.deletes] at hholds hgives hdeletes ⊢
    constructor <;> omega
  | serialize n m p hp =>
    simp [Frame.holds, Frame.gives, Frame.deletes] at hholds hgives hdeletes ⊢
    constructor <;> omega
  | serializeFail n m p hp =>
    have howned := PacketMemory.owned_drop hp c
    simp [Frame.holds, Frame.gives, Frame.deletes, PacketMemory.drop]
      at hholds hgives hdeletes howned ⊢
    constructor <;> omega
  | close n m p hp =>
    obtain ⟨hu, ha, ho⟩ := PacketMemory.close_counts hp m.packetSize c
    simp [hu, ha, ho, Frame.holds, Frame.gives, Frame.deletes] at hholds hgives hdeletes ⊢
    constructor <;> omega
  | release c' hone | lastRelease c' hone =>
    by_cases hc : c' = c
    · have ha : s.mem.absent c = if (s.mem.chunk c).constructed then 0 else 1 := rfl
      simp [hc, Frame.holds, Frame.gives, Frame.deletes] at hholds hgives hdeletes hone ⊢
      constructor <;> omega
    · simp [hc, Frame.holds, Frame.gives, Frame.deletes] at hholds hgives hdeletes ⊢
      constructor <;> omega
  | pushGlobal c' | push c' =>
    by_cases hc : c' = c
    · have ha : s.mem.absent c = if (s.mem.chunk c).constructed then 0 else 1 := rfl
      simp [hc, Frame.holds, Frame.gives, Frame.deletes] at hholds hgives hdeletes ⊢
      constructor <;> omega
    · simp [hc, Frame.holds, Frame.gives, Frame.deletes] at hholds hgives hdeletes ⊢
      constructor <;> omega
  | dropped owner =>
    cases owner <;>
      simp [releaseFrames, Frame.holds, Frame.gives, Frame.deletes] at hholds hgives hdeletes <;>
      constructor <;> omega
  | makePacketBuffer m hfs hlen =>
    simp [Frame.holds, Frame.gives, Frame.deletes] at hholds hgives hdeletes
    constructor <;> omega
  | drop n p hfs hp hreturned hpos =>
    have howned := PacketMemory.owned_drop hp c
    simp [Frame.holds, Frame.gives, Frame.deletes, PacketMemory.drop]
      at hholds hgives hdeletes howned ⊢
    constructor <;> omega
  | exitThread c' hfs hl =>
    have hcurrent := s.mem.current_setLPacketChunk c t none
    simp [hl, Frame.holds, Frame.gives, Frame.deletes] at hholds hgives hdeletes hcurrent ⊢
    constructor <;> omega

omit [DecidableEq T] in
theorem Tracked.copy {c : C} {s : PacketConf T C} {n : ℕ} {p : Packet C} (hs : Tracked c s)
    (hp : s.mem.packets[n]? = some p) (hpos : 0 < p.useCount) :
    Tracked c ⟨s.mem.setPacket n { p with useCount := p.useCount + 1 }, s.frames⟩ := by
  simp only [Tracked, PacketMemory.setPacket_chunk, PacketMemory.absent_setPacket,
    PacketMemory.queued_setPacket, PacketMemory.current_setPacket,
    PacketMemory.owned_copy hp hpos]
  exact hs

theorem tracked_reach {ok : PacketConf T C → Action T (Choice T C) → Prop} {s : PacketConf T C}
    (h : machine.Reach ok start s) (c : C) : Tracked c s := by
  refine h.invariant (Tracked c) ?_ ?_
  · constructor <;> simp [start, PacketMemory.start, PacketChunk.absent, PacketMemory.absent,
      PacketMemory.queued, PacketMemory.current, PacketMemory.owned]
  · intro s a s' _ hs _ hnext
    rcases next_view hnext with ⟨t, old, fs, mem, new, hf, hstep, rfl⟩ |
      ⟨n, p, hp, _, hpos, rfl⟩
    · exact hs.step hf hstep
    · exact hs.copy hp hpos

end

/-- Frames of `MakePacketBuffer`. -/
def Frame.making (f : Frame C) : ℕ := if f.message.isSome then 1 else 0

theorem PacketStep.making {t : T} {σ σ' : PacketMemory T C} {fs old new : List (Frame C)}
    (h : PacketStep t σ fs old σ' new) :
    stackWeight Frame.making new ≤ stackWeight Frame.making old ∨
      fs = [] ∧ stackWeight Frame.making new ≤ 1 := by
  cases h with
  | plain f g _ _ hmessage => exact .inl (by simp [Frame.making, hmessage])
  | assign again c m =>
    apply Or.inl
    cases σ.lPacketChunk t <;> simp [releaseFrames, Frame.making, Frame.message]
  | reset again m c g _ _ hmessage =>
    have hone : g.making = 1 := by simp [Frame.making, hmessage]
    apply Or.inl
    rw [stackWeight_cons, hone, stackWeight_nil]
    exact le_refl 1
  | dropped owner =>
    apply Or.inl
    cases owner <;> simp [releaseFrames, Frame.making, Frame.message]
  | makePacketBuffer m hfs _ => exact .inr ⟨hfs, by simp [Frame.making, Frame.message]⟩
  | drop n p hfs _ _ _ => exact .inr ⟨hfs, by simp [PacketMemory.drop, Frame.making, Frame.message]⟩
  | exitThread c hfs _ => exact .inr ⟨hfs, by simp [Frame.making, Frame.message]⟩
  | _ => exact .inl (by simp [Frame.making, Frame.message, PacketMemory.drop])

/-- A thread makes one packet at a time. -/
theorem one_making {ok : PacketConf T C → Action T (Choice T C) → Prop} {s : PacketConf T C}
    (h : machine.Reach ok start s) (t : T) : stackWeight Frame.making (s.frames t) ≤ 1 := by
  apply h.invariant (fun s => stackWeight Frame.making (s.frames t) ≤ 1) (by simp [start])
  intro s a s' _ hs _ hnext
  rcases next_view hnext with ⟨u, old, fs, mem, new, hf, hstep, rfl⟩ | ⟨n, p, _, _, _, rfl⟩
  · by_cases hu : t = u
    · subst hu
      rw [hf, stackWeight_append] at hs
      simp only [Function.update_self, stackWeight_append]
      rcases hstep.making with hle | ⟨rfl, hle⟩
      · omega
      · simpa using hle
    · simpa only [Function.update_of_ne hu] using hs
  · exact hs

/-- Only opening a thread's current chunk adds a live packet. -/
theorem PacketStep.owned_le {t : T} {σ σ' : PacketMemory T C} {fs old new : List (Frame C)}
    (h : PacketStep t σ fs old σ' new) (c : C) :
    σ'.owned c ≤ σ.owned c ∨ (∃ m, old = [.chunkOpen m]) ∧ σ.lPacketChunk t = some c := by
  cases h with
  | chunkOpen m c' hl _ _ =>
    by_cases hc : c' = c
    · exact .inr ⟨⟨m, rfl⟩, hc ▸ hl⟩
    · exact .inl (by simp [Packet.keeps, hc])
  | serializeFail n m p hp | drop n p _ hp =>
    have hdrop := PacketMemory.owned_drop hp c
    exact .inl (by omega)
  | close n m p hp => exact .inl (PacketMemory.close_counts hp m.packetSize c).2.2.le
  | _ => exact .inl (by simp)

/-- Only an assignment gives a thread another chunk. -/
theorem PacketStep.lPacketChunk {t : T} {σ σ' : PacketMemory T C} {fs old new : List (Frame C)}
    (h : PacketStep t σ fs old σ' new) {u : T} {c : C} (hl : σ'.lPacketChunk u = some c) :
    σ.lPacketChunk u = some c ∨ u = t ∧ ∃ again m, old = [.assign again c m] := by
  cases h with
  | assign again c' m =>
    by_cases hu : u = t
    · subst hu
      simp only [PacketMemory.setLPacketChunk_lPacketChunk, Function.update_self,
        Option.some.injEq] at hl
      exact .inr ⟨rfl, again, m, by rw [hl]⟩
    · exact .inl (by simpa [hu] using hl)
  | exitThread c' _ _ =>
    by_cases hu : u = t
    · simp [hu] at hl
    · exact .inl (by simpa [hu] using hl)
  | _ => exact .inl hl

omit [DecidableEq C] in
theorem Frame.ne_reset_of_plain {f : Frame C} (h : f.plain = true) (again : Bool) (m : Message) :
    Frame.reset again m ≠ f := by
  rintro rfl
  simp [Frame.plain] at h

/-- Only an assignment leads to the reset of a chunk. -/
theorem PacketStep.reset_mem {t : T} {σ σ' : PacketMemory T C} {fs old new : List (Frame C)}
    (h : PacketStep t σ fs old σ' new) {again : Bool} {m : Message}
    (hmem : .reset again m ∈ new) : ∃ c, old = [.assign again c m] ∧ σ'.lPacketChunk t = some c := by
  cases h with
  | assign again' c m' =>
    cases hl : σ.lPacketChunk t <;> simp [hl, releaseFrames] at hmem <;>
      exact ⟨c, by simp [hmem], by simp⟩
  | plain f g _ hplain _ | reset _ _ _ g _ hplain _ =>
    exact absurd (List.mem_singleton.mp hmem) (Frame.ne_reset_of_plain hplain _ _)
  | dropped owner => cases owner <;> simp [releaseFrames] at hmem
  | _ => simp [PacketMemory.drop] at hmem

section

variable [Fintype T] {ok : PacketConf T C → Action T (Choice T C) → Prop} {s : PacketConf T C}
  {c : C}

/-- A chunk that is handed on has no live packet. -/
theorem owned_of_assign (h : machine.Reach ok start s) {t : T} {again : Bool} {m : Message}
    {fs : List (Frame C)} (hf : s.frames t = .assign again c m :: fs) : s.mem.owned c = 0 := by
  have hholds := top_le_weight (Frame.holds c) hf
  have hone : (Frame.assign again c m).holds c = 1 := by simp [Frame.holds]
  exact (tracked_reach h c).fresh (by omega)

/-- A chunk is the current one of one thread only. -/
theorem current_unique (h : machine.Reach ok start s) {t u : T}
    (ht : s.mem.lPacketChunk t = some c) (hu : s.mem.lPacketChunk u = some c) : u = t := by
  by_contra hne
  have htwo := sum_two (fun o => if o = some c then 1 else 0) s.mem.lPacketChunk hne
  have hplace := (tracked_reach h c).place
  simp only [ht, hu, if_true, PacketMemory.current] at htwo hplace
  omega

/-- A chunk that its new thread has yet to reset has no live packet. -/
def Steady (c : C) (s : PacketConf T C) : Prop :=
  ∀ t again m, .reset again m ∈ s.frames t → s.mem.lPacketChunk t = some c → s.mem.owned c = 0

theorem steady_reach (h : machine.Reach ok start s) (c : C) : Steady c s := by
  apply h.invariant (Steady c) (by simp [Steady, start])
  intro s a s' hr hs _ hnext
  rcases next_view hnext with ⟨t, old, fs, mem, new, hf, hstep, rfl⟩ | ⟨n, p, hp, _, hpos, rfl⟩
  · intro u again m hmem hl
    have hopen (m' : Message) (hold : old = [.chunkOpen m']) (hmem : .reset again m ∈ fs) :
        False := by
      have hone := one_making hr t
      have hle := le_stackWeight Frame.making hmem
      rw [hf, hold, stackWeight_append] at hone
      simp [Frame.making, Frame.message] at hone hle
      omega
    rcases mem_update _ hmem with ⟨rfl, hnew⟩ | hother
    · obtain ⟨c', rfl, hl'⟩ := hstep.reset_mem hnew
      obtain rfl : c' = c := Option.some.inj (hl'.symm.trans hl)
      have hzero := owned_of_assign hr hf
      rcases hstep.owned_le c' with hle | ⟨⟨m', hold⟩, _⟩
      · exact Nat.le_zero.mp (hzero ▸ hle)
      · simp at hold
    · have hbefore := hother.mem_append hf
      rcases hstep.owned_le c with hle | ⟨⟨m', rfl⟩, ht⟩
      · refine Nat.le_zero.mp (hle.trans ?_)
        rcases hstep.lPacketChunk hl with hl | ⟨rfl, again', m', rfl⟩
        · exact (hs u again m hbefore hl).le
        · exact (owned_of_assign hr hf).le
      · rcases hstep.lPacketChunk hl with hl | ⟨_, again', m'', hold⟩
        · obtain rfl := current_unique hr ht hl
          rcases hother with ⟨_, hg⟩ | ⟨hne, _⟩
          · exact absurd hg (hopen m' rfl)
          · exact absurd rfl hne
        · simp at hold
  · intro u again m hmem hl
    rw [PacketMemory.owned_copy hp hpos]
    exact hs u again m hmem hl

end

end ServerCore.Packets
