import ServerCore.Packets.PacketIsolation

namespace ServerCore.Packets

open Framework Network

variable {T C : Type} [DecidableEq T] [DecidableEq C]

/-- Two states of a chunk that differ in the use count at most. -/
structure PacketChunk.Same (chunk chunk' : PacketChunk) : Prop where
  mBuffers : chunk.mBuffers = chunk'.mBuffers
  mIsOpen : chunk.mIsOpen = chunk'.mIsOpen
  mUsedSize : chunk.mUsedSize = chunk'.mUsedSize

theorem PacketChunk.Same.refl (chunk : PacketChunk) : chunk.Same chunk := ⟨rfl, rfl, rfl⟩

omit [DecidableEq T] in
theorem PacketMemory.same_setChunk (σ : PacketMemory T C) {c c' : C} {chunk : PacketChunk}
    (h : c = c' → chunk.Same (σ.chunk c')) : ((σ.setChunk c chunk).chunk c').Same (σ.chunk c') := by
  by_cases hc : c = c'
  · subst hc
    rw [PacketMemory.setChunk_self]
    exact h rfl
  · rw [PacketMemory.setChunk_of_ne _ (Ne.symm hc)]
    exact .refl _

section

variable [Fintype T] {ok : PacketConf T C → Action T (Choice T C) → Prop} {s : PacketConf T C}
  {t u : T} {old fs new : List (Frame C)} {mem : PacketMemory T C} {g : Frame C}

omit [DecidableEq T] [DecidableEq C] [Fintype T] in
theorem Frame.message_of_packet {n : ℕ} (h : g.packet = some n) : g.message.isSome := by
  cases g <;> first | rfl | simp [Frame.packet] at h

omit [Fintype T] in
/-- A thread has one frame of `MakePacketBuffer` at most. -/
theorem making_unique (hr : machine.Reach ok start s) {f : Frame C} (hf : f ∈ s.frames t)
    (hg : g ∈ s.frames t) (hfm : f.message.isSome) (hgm : g.message.isSome) : f = g := by
  by_contra hne
  have hone := one_making hr t
  obtain ⟨before, after, hsplit⟩ := List.append_of_mem hf
  rw [hsplit] at hg hone
  have hrest : g ∈ before ++ after := by
    simp only [List.mem_append, List.mem_cons] at hg ⊢
    tauto
  have hle := le_stackWeight Frame.making hrest
  simp only [stackWeight_append, stackWeight_cons, Frame.making, hfm, hgm, if_true] at hone hle
  omega

omit [Fintype T] in
/-- While a frame of `MakePacketBuffer` waits below, its thread is in no other one. -/
theorem old_message (hr : machine.Reach ok start s) (hf : s.frames t = old ++ fs) (hg : g ∈ fs)
    (hm : g.message.isSome) {f : Frame C} (hold : f ∈ old) : f.message = none := by
  have hone := one_making hr t
  have hbelow := le_stackWeight Frame.making hg
  have htop := le_stackWeight Frame.making hold
  rw [hf, stackWeight_append] at hone
  simp only [Frame.making, hm, if_true] at hbelow htop hone
  by_contra hne
  rw [if_pos (Option.isSome_iff_ne_none.mpr hne)] at htop
  omega

omit [Fintype T] in
theorem PacketStep.lPacketChunk_other (h : PacketStep t s.mem fs old mem new) (hu : u ≠ t) :
    mem.lPacketChunk u = s.mem.lPacketChunk u := by
  cases h with
  | assign again c m =>
    rw [PacketMemory.setLPacketChunk_lPacketChunk, Function.update_of_ne hu]
  | exitThread c _ _ =>
    rw [PacketMemory.setLPacketChunk_lPacketChunk, Function.update_of_ne hu]
  | _ => rfl

omit [Fintype T] in
/-- During `MakePacketBuffer` other steps leave the thread its chunk. -/
theorem PacketStep.keeps_lPacketChunk (hr : machine.Reach ok start s)
    (hf : s.frames t = old ++ fs) (h : PacketStep t s.mem fs old mem new)
    (hg : Other s.frames t fs u g) (hm : g.message.isSome) :
    mem.lPacketChunk u = s.mem.lPacketChunk u := by
  rcases hg with ⟨rfl, hg⟩ | ⟨hu, _⟩
  · have hold {f : Frame C} := old_message (f := f) hr hf hg hm
    cases h with
    | assign again c m => exact absurd (hold (List.mem_singleton_self _)) (Option.some_ne_none m)
    | exitThread c hfs _ =>
      subst hfs
      exact absurd hg List.not_mem_nil
    | _ => rfl
  · exact h.lPacketChunk_other hu

/-- During `MakePacketBuffer` other steps leave its packet as it is. -/
theorem PacketStep.keeps_packet (hr : machine.Reach ok start s) (hf : s.frames t = old ++ fs)
    (h : PacketStep t s.mem fs old mem new) (hg : Other s.frames t fs u g) {n : ℕ}
    (hn : g.packet = some n) {p : Packet C} (hp : s.mem.packets[n]? = some p) :
    mem.packets[n]? = some p := by
  have hworking := working_reach hr
  obtain ⟨m, hm⟩ := Option.isSome_iff_exists.mp (Frame.message_of_packet hn)
  obtain ⟨q, hq, hopen, _⟩ := hworking.packet u g n m (hg.mem_append hf) hn hm
  obtain rfl := Option.some.inj (hq.symm.trans hp)
  exact hworking.keeps_packet hf h hg hn hp hopen

omit [Fintype T] in
/-- A frame that works on a packet takes it over from the frame before, or has just opened it. -/
theorem PacketStep.new_packet (h : PacketStep t s.mem fs old mem new) (hg : g ∈ new) {n : ℕ}
    (hn : g.packet = some n) : mem.lPacketChunk = s.mem.lPacketChunk ∧
      ((∃ f, old = [f] ∧ f.packet = some n ∧ mem.packets = s.mem.packets) ∨
        n = s.mem.packets.length ∧ ∃ p, mem.packets = s.mem.packets ++ [p] ∧
          s.mem.lPacketChunk t = some p.mOwnerChunk) := by
  cases h with
  | plain f g' _ hplain _ | reset _ _ _ g' _ hplain _ =>
    obtain rfl := List.mem_singleton.mp hg
    rw [Frame.packet_of_plain hplain] at hn
    exact absurd hn.symm (Option.some_ne_none n)
  | header k m p _ | serialize k m p _ =>
    obtain rfl := List.mem_singleton.mp hg
    exact ⟨rfl, .inl ⟨_, rfl, hn, rfl⟩⟩
  | chunkOpen m c hl _ _ =>
    obtain rfl := List.mem_singleton.mp hg
    exact ⟨rfl, .inr ⟨(Option.some.inj hn).symm, _, rfl, hl⟩⟩
  | assign again c m =>
    have hsome := Frame.message_of_packet hn
    rcases List.mem_append.mp hg with hg | hg
    · simp [message_of_releaseFrames hg] at hsome
    · obtain rfl := List.mem_singleton.mp hg
      exact absurd hn.symm (Option.some_ne_none n)
  | dropped owner =>
    have hsome := Frame.message_of_packet hn
    simp [message_of_releaseFrames hg] at hsome
  | close | release => exact absurd hg List.not_mem_nil
  | _ =>
    obtain rfl := List.mem_singleton.mp hg
    exact absurd hn.symm (Option.some_ne_none n)

/-- The packet that a thread is making lies in the thread's chunk. -/
def Holder (s : PacketConf T C) : Prop := ∀ u g n, g ∈ s.frames u → g.packet = some n →
  ∃ p, s.mem.packets[n]? = some p ∧ s.mem.lPacketChunk u = some p.mOwnerChunk

theorem Holder.step (hr : machine.Reach ok start s) (hs : Holder s)
    (hf : s.frames t = old ++ fs) (h : PacketStep t s.mem fs old mem new) :
    Holder ⟨mem, Function.update s.frames t (new ++ fs)⟩ := by
  intro u g n hg hn
  rcases mem_update _ hg with ⟨rfl, hnew⟩ | hother
  · obtain ⟨hl, ⟨f, rfl, hfn, hpackets⟩ | ⟨rfl, p, hpackets, hp⟩⟩ := h.new_packet hnew hn
    · rw [hpackets, hl]
      exact hs u f n (by simp [hf]) hfn
    · rw [hpackets, hl]
      exact ⟨p, List.getElem?_concat_length, hp⟩
  · obtain ⟨p, hp, hl⟩ := hs u g n (hother.mem_append hf) hn
    refine ⟨p, h.keeps_packet hr hf hother hn hp, ?_⟩
    rw [h.keeps_lPacketChunk hr hf hother (Frame.message_of_packet hn)]
    exact hl

theorem holder_reach (h : machine.Reach ok start s) : Holder s := by
  refine h.invariant Holder (by simp [Holder, start]) ?_
  intro s a s' hr hs _ hnext
  rcases next_view hnext with ⟨t, old, fs, mem, new, hf, hstep, rfl⟩ | ⟨n, p, hp, hreturned, _, rfl⟩
  · exact hs.step hr hf hstep
  · intro u g k hg hk
    obtain ⟨m, hm⟩ := Option.isSome_iff_exists.mp (Frame.message_of_packet hk)
    rw [(working_reach hr).getElem?_setPacket hg hk hm hp hreturned]
    exact hs u g k hg hk

/-- A chunk that some thread works in exists. -/
theorem constructed_of_current (hr : machine.Reach ok start s) {c : C}
    (hc : s.mem.lPacketChunk u = some c) : (s.mem.chunk c).constructed = true := by
  have hone := single_le_sum (fun o => if o = some c then 1 else 0) s.mem.lPacketChunk u
  have hplace := (tracked_reach hr c).place
  simp only [hc, if_true, PacketMemory.current, PacketMemory.absent] at hone hplace
  by_contra hne
  rw [if_neg hne] at hplace
  omega

/-- A thread that is not itself in `MakePacketBuffer` in this step has its chunk left as it is. -/
theorem PacketStep.keeps_chunk_of (hr : machine.Reach ok start s) (hf : s.frames t = old ++ fs)
    (h : PacketStep t s.mem fs old mem new)
    (hbusy : ∀ f ∈ old, f.message.isSome → u ≠ t) {c : C} (hc : s.mem.lPacketChunk u = some c) :
    (mem.chunk c).Same (s.mem.chunk c) := by
  -- what a thread changes is its own chunk, and that is not the chunk of another
  have hown {c' : C} (hu : u ≠ t) (ht : s.mem.lPacketChunk t = some c') : c' ≠ c := by
    rintro rfl
    exact hu (current_unique hr ht hc)
  have hheld {f : Frame C} {n : ℕ} {p : Packet C} (hold : f ∈ old) (hn : f.packet = some n)
      (hp : s.mem.packets[n]? = some p) : s.mem.lPacketChunk t = some p.mOwnerChunk := by
    obtain ⟨q, hq, hl⟩ := holder_reach hr t f n (by simp [hf, hold]) hn
    obtain rfl := Option.some.inj (hq.symm.trans hp)
    exact hl
  cases h with
  | construct again m c' habsent =>
    apply PacketMemory.same_setChunk
    rintro rfl
    rw [constructed_of_current hr hc] at habsent
    exact absurd habsent (by decide)
  | reset again m c' g' hl _ _ =>
    apply PacketMemory.same_setChunk
    intro heq
    exact absurd heq (hown (hbusy _ (List.mem_singleton_self _) rfl) hl)
  | chunkOpen m c' hl _ _ =>
    apply PacketMemory.same_setChunk
    intro heq
    exact absurd heq (hown (hbusy _ (List.mem_singleton_self _) rfl) hl)
  | header n m p hp | serialize n m p hp | close n m p hp =>
    apply PacketMemory.same_setChunk
    intro heq
    exact absurd heq (hown (hbusy _ (List.mem_singleton_self _) rfl)
      (hheld (List.mem_singleton_self _) rfl hp))
  | release c' | lastRelease c' | pushGlobal c' | push c' =>
    apply PacketMemory.same_setChunk
    rintro rfl
    exact ⟨rfl, rfl, rfl⟩
  | _ => exact .refl _

/-- During `MakePacketBuffer` other steps leave the contents of the thread's chunk as they are. -/
theorem PacketStep.keeps_chunk (hr : machine.Reach ok start s) (hf : s.frames t = old ++ fs)
    (h : PacketStep t s.mem fs old mem new) (hg : Other s.frames t fs u g)
    (hm : g.message.isSome) {c : C} (hc : s.mem.lPacketChunk u = some c) :
    (mem.chunk c).Same (s.mem.chunk c) := by
  apply h.keeps_chunk_of hr hf _ hc
  intro f hold hf'
  rcases hg with ⟨rfl, hg⟩ | ⟨hu, _⟩
  · simp [old_message hr hf hg hm hold] at hf'
  · exact hu

/-- The serializations of thread `t` succeed. -/
def Succeeds (t : T) (_ : PacketConf T C) (a : Action T (Choice T C)) : Prop :=
  a ≠ .step t (.serialized false)

/-- The chunk of thread `t` is open only while the thread makes a packet in it, or has yet to reset
it. -/
def OpenFor (t : T) (s : PacketConf T C) : Prop := ∀ c, s.mem.lPacketChunk t = some c →
  (s.mem.chunk c).mIsOpen = true →
    ∃ g ∈ s.frames t, g.packet.isSome ∨ ∃ again m, g = .reset again m

omit [DecidableEq T] [Fintype T] in
theorem PacketMemory.of_setChunk (P : PacketChunk → Prop) {σ : PacketMemory T C} {c c' : C}
    {chunk : PacketChunk} (hsame : P chunk → P (σ.chunk c'))
    (h : P ((σ.setChunk c' chunk).chunk c)) : P (σ.chunk c) := by
  by_cases hc : c = c'
  · subst hc
    rw [PacketMemory.setChunk_self] at h
    exact hsame h
  · rwa [PacketMemory.setChunk_of_ne _ hc] at h

omit [Fintype T] in
/-- Only `Open` opens a chunk. -/
theorem PacketStep.opens (h : PacketStep t s.mem fs old mem new) {c : C}
    (hopen : (mem.chunk c).mIsOpen = true) : (s.mem.chunk c).mIsOpen = true ∨
      s.mem.lPacketChunk t = some c ∧ ∃ g ∈ new, g.packet.isSome := by
  have hof {c' : C} {chunk : PacketChunk}
      (hsame : chunk.mIsOpen = true → (s.mem.chunk c').mIsOpen = true)
      (h : ((s.mem.setChunk c' chunk).chunk c).mIsOpen = true) : (s.mem.chunk c).mIsOpen = true :=
    PacketMemory.of_setChunk (fun chunk => chunk.mIsOpen = true) hsame h
  cases h with
  | construct again m c' _ =>
    refine .inl (hof ?_ hopen)
    exact fun h => absurd h Bool.false_ne_true
  | reset again m c' g' hl _ _ =>
    refine .inl (hof ?_ hopen)
    exact fun h => absurd h Bool.false_ne_true
  | chunkOpen m c' hl _ _ =>
    by_cases hc : c = c'
    · subst hc
      exact .inr ⟨hl, _, List.mem_singleton_self _, rfl⟩
    · rw [PacketMemory.addPacket_chunk, PacketMemory.setChunk_of_ne _ hc] at hopen
      exact .inl hopen
  | header n m p hp | serialize n m p hp =>
    refine .inl (hof ?_ hopen)
    exact fun h => h
  | close n m p hp =>
    refine .inl (hof ?_ hopen)
    intro h
    unfold Packet.close PacketChunk.close at h
    split at h
    · exact h
    · split at h
      · exact h
      · exact absurd h Bool.false_ne_true
  | release c' | lastRelease c' | pushGlobal c' | push c' =>
    refine .inl (hof ?_ hopen)
    exact fun h => h
  | _ => exact .inl hopen

/-- `Close` leaves the chunk of the packet closed. -/
theorem close_mIsOpen (hr : machine.Reach ok start s) {n : ℕ} {m : Message} {p : Packet C}
    (hg : .close n m ∈ s.frames u) (hp : s.mem.packets[n]? = some p) :
    ((s.mem.close n p m.packetSize).chunk p.mOwnerChunk).mIsOpen = false := by
  obtain ⟨q, hq, _, _, hsize⟩ := (working_reach hr).packet u _ n m hg rfl rfl
  obtain rfl := Option.some.inj (hq.symm.trans hp)
  simp only [PacketMemory.close, PacketMemory.setPacket_chunk, PacketMemory.setChunk_self,
    Packet.close, hsize, UInt32.lt_irrefl, if_false, PacketChunk.close]
  split
  · assumption
  · rfl

/-- Other threads do not open the chunk of thread `u`. -/
theorem OpenFor.other (hr : machine.Reach ok start s) (hs : OpenFor u s) (hu : u ≠ t)
    (h : PacketStep t s.mem fs old mem new) :
    OpenFor u ⟨mem, Function.update s.frames t (new ++ fs)⟩ := by
  intro c hl hopen
  rw [h.lPacketChunk_other hu] at hl
  simp only [Function.update_of_ne hu]
  rcases h.opens hopen with hbefore | ⟨ht, _⟩
  · exact hs c hl hbefore
  · exact absurd (current_unique hr ht hl) hu

theorem OpenFor.step (hr : machine.Reach ok start s) (hs : OpenFor t s)
    (hf : s.frames t = old ++ fs) (h : PacketStep t s.mem fs old mem new)
    (hok : ∀ f ∈ old, f.packet.isSome → ∀ g ∈ new, g.message.isSome) :
    OpenFor t ⟨mem, Function.update s.frames t (new ++ fs)⟩ := by
  intro c hl hopen
  simp only [Function.update_self, List.mem_append]
  rcases h.opens hopen with hbefore | ⟨_, g, hg, hpacket⟩
  · rcases h.lPacketChunk hl with hl | ⟨_, again, m, rfl⟩
    · obtain ⟨g, hg, hg'⟩ := hs c hl hbefore
      rcases List.mem_append.mp (hf ▸ hg) with hold | hbelow
      · obtain rfl := h.old_eq hold
        cases h with
        | plain f g' hplain _ _ =>
          rcases hg' with hpacket | ⟨again, m, rfl⟩
          · rw [Frame.packet_of_plain hplain] at hpacket
            exact absurd hpacket Bool.false_ne_true
          · exact absurd rfl (Frame.ne_reset_of_plain hplain again m)
        | reset again m c' g' hl' _ _ =>
          obtain rfl := Option.some.inj (hl'.symm.trans hl)
          rw [PacketMemory.setChunk_self] at hopen
          exact absurd hopen Bool.false_ne_true
        | header k m p hp => exact ⟨_, .inl (List.mem_singleton_self _), .inl rfl⟩
        | serialize k m p hp => exact ⟨_, .inl (List.mem_singleton_self _), .inl rfl⟩
        | serializeFail k m p hp =>
          have hmessage := hok _ (List.mem_singleton_self _) rfl _ (List.mem_singleton_self _)
          exact absurd hmessage Bool.false_ne_true
        | close k m p hp =>
          obtain ⟨q, hq, hlq⟩ := holder_reach hr t _ k hg rfl
          obtain rfl := Option.some.inj (hq.symm.trans hp)
          obtain rfl := Option.some.inj (hlq.symm.trans hl)
          have hclosed := close_mIsOpen hr hg hp
          rw [hclosed] at hopen
          exact absurd hopen Bool.false_ne_true
        | _ =>
          rcases hg' with hpacket | ⟨again, m, heq⟩
          · exact absurd hpacket Bool.false_ne_true
          · exact absurd heq (by simp)
      · exact ⟨g, .inr hbelow, hg'⟩
    · cases h with
      | plain f g' hplain _ _ => exact absurd hplain Bool.false_ne_true
      | assign =>
        exact ⟨_, .inl (List.mem_append_right _ (List.mem_singleton_self _)),
          .inr ⟨again, m, rfl⟩⟩
  · exact ⟨g, .inl hg, .inl hpacket⟩

omit [Fintype T] in
/-- A thread that has a packet stays in `MakePacketBuffer` unless the serialization fails. -/
theorem step_message {c : Choice T C} {f : Frame C} (h : step s.mem t f c = some (mem, new))
    (hc : c ≠ .serialized false) (hf : f.packet.isSome) : ∀ g ∈ new, g.message.isSome := by
  intro g hg
  cases step_spec h [] with
  | header n m p hp | serialize n m p hp =>
    obtain rfl := List.mem_singleton.mp hg
    rfl
  | serializeFail n m p hp =>
    cases c with
    | serialized ok =>
      cases ok with
      | false => exact absurd rfl hc
      | true =>
        simp only [step, hp, Option.map_some, if_true, Option.some.injEq, Prod.mk.injEq] at h
        obtain ⟨_, hnew⟩ := h
        obtain rfl := List.mem_singleton.mp (hnew ▸ hg)
        rfl
    | _ => simp [step] at h
  | close => exact absurd hg List.not_mem_nil
  | plain f g' hplain _ _ =>
    rw [Frame.packet_of_plain hplain] at hf
    exact absurd hf Bool.false_ne_true
  | _ => exact absurd hf Bool.false_ne_true

theorem openFor_reach (h : machine.Reach (Succeeds t) start s) : OpenFor t s := by
  refine h.invariant (OpenFor t) ?_ ?_
  · intro c hl
    exact absurd hl.symm (Option.some_ne_none c)
  · intro s a s' hr hs ha hnext
    rcases Machine.next_cases hnext with ⟨u, c, mem, f, rfl, he, rfl⟩ |
      ⟨u, c, f, fs, mem, new, rfl, hf, he, rfl⟩ | ⟨c, mem, rfl, he, rfl⟩
    · by_cases hu : t = u
      · subst hu
        refine hs.step hr (List.nil_append _).symm (enter_spec he) ?_
        intro f hf
        exact absurd hf List.not_mem_nil
      · exact hs.other hr hu (enter_spec he)
    · by_cases hu : t = u
      · subst hu
        refine hs.step hr (hf.trans List.singleton_append.symm) (step_spec he fs) ?_
        intro f' hf' hpacket
        obtain rfl := List.mem_singleton.mp hf'
        exact step_message he (fun heq => ha (heq ▸ rfl)) hpacket
      · exact hs.other hr hu (step_spec he fs)
    · obtain ⟨n, p, _, _, _, rfl⟩ := env_spec he
      exact hs

omit [Fintype T] in
/-- A thread that is in `MakePacketBuffer` and has no packet yet has a closed chunk. -/
theorem OpenFor.closed (hs : OpenFor t s) (hr : machine.Reach ok start s) {f : Frame C}
    (hf : f ∈ s.frames t) (hm : f.message.isSome) (hnone : f.packet = none)
    (hreset : ∀ again m, f ≠ .reset again m) {c : C} (hl : s.mem.lPacketChunk t = some c) :
    (s.mem.chunk c).mIsOpen = false := by
  by_contra hne
  obtain ⟨g, hg, hpacket | ⟨again, m, rfl⟩⟩ := hs c hl (by simpa using hne)
  · obtain ⟨n, hn⟩ := Option.isSome_iff_exists.mp hpacket
    obtain rfl := making_unique hr hf hg hm (Frame.message_of_packet hn)
    exact Option.some_ne_none n (hn.symm.trans hnone)
  · exact hreset again m (making_unique hr hf hg hm rfl)

end

end ServerCore.Packets
