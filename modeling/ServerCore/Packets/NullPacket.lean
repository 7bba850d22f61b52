import ServerCore.Packets.PacketCalls
import Mathlib.Data.Set.Finite.Basic
import Mathlib.Data.Set.Finite.Lattice

namespace ServerCore.Packets

open Framework Network

/-- A packet for the message is no longer than a chunk. -/
def Message.Fits (m : Message) : Prop := sizeofPacketHeader + m.pkt.length ≤ packetChunkSize

variable {T C : Type}

/-- What thread `t` relies on at each place of `MakePacketBuffer`. -/
def Frame.Assertion (σ : PacketMemory T C) (t : T) : Frame C → Prop
  | .reset _ _ | .isOpen _ | .freeSize _ => (σ.lPacketChunk t).isSome
  | .chunkOpen m => ∃ c, σ.lPacketChunk t = some c ∧
      (m.Fits → m.packetSize ≤ (σ.chunk c).freeSize)
  | .header none m => ¬ m.Fits
  | .serialize n m | .close n m => ∃ p, σ.packets[n]? = some p ∧
      (σ.chunk p.mOwnerChunk).slice p.mBuffer sizeofPacketHeader = m.header.write
  | _ => True

theorem header_write_length (m : Message) : m.header.write.length = sizeofPacketHeader := rfl

theorem slice_overwrite_self (buf bytes : List UInt8) {pos : ℕ}
    (h : pos + bytes.length ≤ buf.length) :
    ((overwrite buf pos bytes).drop pos).take bytes.length = bytes := by
  have hlen : (buf.take pos).length = pos := by
    rw [List.length_take]
    omega
  rw [overwrite, List.append_assoc, List.drop_append_of_le_length hlen.ge,
    List.drop_of_length_le hlen.le, List.nil_append, List.take_left]

variable [DecidableEq T] [DecidableEq C]

section

variable [Fintype T] {ok : PacketConf T C → Action T (Choice T C) → Prop} {s : PacketConf T C}
  {t u : T} {f g : Frame C} {old fs new : List (Frame C)} {mem : PacketMemory T C}

/-- Steps elsewhere keep an assertion. -/
theorem Frame.Assertion.other (hr : machine.Reach ok start s) (hf : s.frames t = old ++ fs)
    (h : PacketStep t s.mem fs old mem new) (hg : Other s.frames t fs u g)
    (hs : g.Assertion s.mem u) : g.Assertion mem u := by
  have hwritten {n : ℕ} {m : Message} (hn : g.packet = some n)
      (hs : ∃ p, s.mem.packets[n]? = some p ∧
        (s.mem.chunk p.mOwnerChunk).slice p.mBuffer sizeofPacketHeader = m.header.write) :
      ∃ p, mem.packets[n]? = some p ∧
        (mem.chunk p.mOwnerChunk).slice p.mBuffer sizeofPacketHeader = m.header.write := by
    obtain ⟨p, hp, hbytes⟩ := hs
    obtain ⟨q, hq, hl⟩ := holder_reach hr u g n (hg.mem_append hf) hn
    obtain rfl := Option.some.inj (hp.symm.trans hq)
    have hsame := h.keeps_chunk hr hf hg (Frame.message_of_packet hn) hl
    refine ⟨p, h.keeps_packet hr hf hg hn hp, ?_⟩
    rw [PacketChunk.slice, hsame.mBuffers]
    exact hbytes
  cases g with
  | reset again m | isOpen m | freeSize m =>
    simp only [Frame.Assertion] at hs ⊢
    rw [h.keeps_lPacketChunk hr hf hg rfl]
    exact hs
  | chunkOpen m =>
    obtain ⟨c, hl, hfree⟩ := hs
    have hsame := h.keeps_chunk hr hf hg rfl hl
    refine ⟨c, ?_, ?_⟩
    · rw [h.keeps_lPacketChunk hr hf hg rfl]
      exact hl
    · rw [PacketChunk.freeSize, hsame.mUsedSize]
      exact hfree
  | header packet m =>
    cases packet with
    | none => exact hs
    | some n => trivial
  | serialize n m => exact hwritten rfl hs
  | close n m => exact hwritten rfl hs
  | _ => trivial

/-- A packet that fits is no larger than an empty chunk. -/
theorem Message.Fits.packetSize_le {m : Message} (h : m.Fits) :
    m.packetSize ≤ UInt32.ofNat packetChunkSize := by
  simp only [Message.Fits, sizeofPacketHeader, packetChunkSize] at h
  have hsize := m.packetSize_toNat (by simp only [intMax]; omega)
  rw [UInt32.le_iff_toNat_le, hsize]
  exact h

theorem PacketChunk.reset_freeSize (chunk : PacketChunk) :
    chunk.reset.freeSize = UInt32.ofNat packetChunkSize := by
  rw [PacketChunk.freeSize, PacketChunk.reset, UInt32.sub_zero]

theorem PacketChunk.open'_isSome {chunk : PacketChunk} {allocSize : UInt32}
    (hclosed : chunk.mIsOpen = false) (hsize : allocSize ≤ UInt32.ofNat packetChunkSize)
    (hroom : allocSize ≤ chunk.freeSize) : (chunk.open' allocSize).2.isSome := by
  unfold PacketChunk.open'
  rw [if_neg (UInt32.not_lt.mpr hsize), hclosed, if_neg Bool.false_ne_true,
    if_neg (UInt32.not_lt.mpr hroom)]
  rfl

/-- Where the packet that thread `t` is making lies in its chunk. -/
theorem room_of_packet (hr : machine.Reach ok start s) (hf : f ∈ s.frames t) {n : ℕ}
    {m : Message} {p : Packet C} (hn : f.packet = some n) (hm : f.message = some m)
    (hp : s.mem.packets[n]? = some p) :
    p.mBuffer + sizeofPacketHeader + m.pkt.length ≤
      (s.mem.chunk p.mOwnerChunk).mBuffers.length := by
  have hworking := working_reach hr
  obtain ⟨q, hq, _, hlive, hsize⟩ := hworking.packet t f n m hf hn hm
  obtain rfl := Option.some.inj (hp.symm.trans hq)
  have hinside := ((layout_reach hr).placed n p hp hlive).inside
  rw [(layout_reach hr).length _ ((tracked_reach hr _).constructed hp hlive)]
  rwa [Packet.stop, hsize, m.packetSize_toNat (hworking.fits t f m hf hm), ← Nat.add_assoc]
    at hinside

omit [DecidableEq T] [DecidableEq C] [Fintype T] in
/-- Outside `MakePacketBuffer` a thread relies on nothing. -/
theorem Frame.Assertion.of_message {σ : PacketMemory T C} (h : g.message = none) :
    g.Assertion σ t := by
  cases g <;> trivial

/-- Each step of a thread establishes what it relies on next. -/
theorem Frame.Assertion.step (hr : machine.Reach (Succeeds t) start s)
    (hs : f.Assertion s.mem t) (hf : s.frames t = f :: fs) {c : Choice T C}
    (h : step s.mem t f c = some (mem, new)) : ∀ g ∈ new, g.Assertion mem t := by
  intro g hg
  have hmem : f ∈ s.frames t := by simp [hf]
  have hclosed {c : C} (hm : f.message.isSome) (hnone : f.packet = none)
      (hreset : ∀ again m, f ≠ .reset again m) (hl : s.mem.lPacketChunk t = some c) :
      (s.mem.chunk c).mIsOpen = false :=
    (openFor_reach hr).closed hr hmem hm hnone hreset hl
  cases step_spec h fs with
  | plain f g' hf' hplain _ =>
    obtain rfl := List.mem_singleton.mp hg
    cases step_flow h hg hplain with
    | current m hl => exact hl
    | isOpen m c hl hopen =>
      rw [hclosed rfl rfl (by simp) hl] at hopen
      exact absurd hopen Bool.false_ne_true
    | isClosed m => exact hs
    | room m c hl hroom => exact ⟨c, hl, fun _ => hroom⟩
    | refused m c hl hnone =>
      -- the chunk is closed and has room, so only the size is left as a reason
      intro hfits
      obtain ⟨c', hl', hroom⟩ := hs
      obtain rfl := Option.some.inj (hl.symm.trans hl')
      have hopen := PacketChunk.open'_isSome (hclosed rfl rfl (by simp) hl) hfits.packetSize_le
        (hroom hfits)
      rw [hnone] at hopen
      exact absurd hopen Bool.false_ne_true
    | renewed | refilled => exact absurd hf' Bool.false_ne_true
    | _ => trivial
  | reset again m c g' hl hplain _ =>
    obtain rfl := List.mem_singleton.mp hg
    cases step_flow h hg hplain with
    | renewed m => exact hs
    | refilled m =>
      refine ⟨c, hl, fun hfits => ?_⟩
      rw [PacketMemory.setChunk_self, PacketChunk.reset_freeSize]
      exact hfits.packetSize_le
  | assign again c m =>
    rcases List.mem_append.mp hg with hg | hg
    · exact .of_message (message_of_releaseFrames hg)
    · obtain rfl := List.mem_singleton.mp hg
      simp [Frame.Assertion]
  | header n m p hp =>
    obtain rfl := List.mem_singleton.mp hg
    have hroom := room_of_packet hr hmem rfl rfl hp
    refine ⟨p, hp, ?_⟩
    rw [PacketMemory.write, PacketMemory.setChunk_self, PacketChunk.slice,
      ← header_write_length m]
    apply slice_overwrite_self
    rw [header_write_length]
    omega
  | serialize n m p hp =>
    obtain rfl := List.mem_singleton.mp hg
    obtain ⟨q, hq, hheader⟩ := hs
    obtain rfl := Option.some.inj (hq.symm.trans hp)
    have hroom := room_of_packet hr hmem rfl rfl hp
    refine ⟨q, hp, ?_⟩
    rw [PacketMemory.write, PacketMemory.setChunk_self, PacketChunk.slice,
      slice_overwrite _ _ le_rfl (by omega)]
    exact hheader
  | dropped owner => exact .of_message (message_of_releaseFrames hg)
  | close | release => exact absurd hg List.not_mem_nil
  | _ =>
    obtain rfl := List.mem_singleton.mp hg
    trivial

/-- Thread `t` may rely on the assertion of each of its frames. -/
def Asserted (t : T) (s : PacketConf T C) : Prop := ∀ f ∈ s.frames t, f.Assertion s.mem t

theorem asserted_reach (h : machine.Reach (Succeeds t) start s) : Asserted t s := by
  refine h.invariant (Asserted t) (by simp [Asserted, start]) ?_
  intro s a s' hr hs ha hnext g hg
  rcases Machine.next_cases hnext with ⟨u, c, mem, f, rfl, he, rfl⟩ |
    ⟨u, c, f, fs, mem, new, rfl, hf, he, rfl⟩ | ⟨c, mem, rfl, he, rfl⟩
  · rcases mem_update [f] hg with ⟨rfl, hnew⟩ | hother
    · obtain rfl := List.mem_singleton.mp hnew
      cases enter_spec he <;> trivial
    · have hspec := enter_spec he
      exact (hs g (hother.mem_append (List.nil_append _).symm)).other hr
        (List.nil_append _).symm hspec hother
  · rcases mem_update new hg with ⟨rfl, hnew⟩ | hother
    · exact (hs f (by simp [hf])).step hr hf he g hnew
    · have hspec := step_spec he fs
      exact (hs g (hother.mem hf)).other hr (hf.trans List.singleton_append.symm) hspec hother
  · have hbefore := hs g hg
    obtain ⟨n, p, hp, hreturned, _, rfl⟩ := env_spec he
    cases g with
    | serialize k m | close k m =>
      simp only [Frame.Assertion]
      rw [(working_reach hr).getElem?_setPacket hg rfl rfl hp hreturned]
      exact hbefore
    | header packet m => cases packet <;> exact hbefore
    | _ => exact hbefore

end

section

variable {ok : PacketConf T C → Action T (Choice T C) → Prop} {s : PacketConf T C} {t : T}
  {f : Frame C} {fs new : List (Frame C)} {mem : PacketMemory T C} {c : Choice T C}

/-- Only an allocation adds a chunk. -/
theorem PacketStep.constructed {old : List (Frame C)} (h : PacketStep t s.mem fs old mem new) :
    ∃ o : Option C, ∀ c, (mem.chunk c).constructed = true →
      (s.mem.chunk c).constructed = true ∨ o = some c := by
  have hof {c c' : C} {chunk : PacketChunk}
      (hsame : chunk.constructed = true → (s.mem.chunk c').constructed = true)
      (h : ((s.mem.setChunk c' chunk).chunk c).constructed = true) :
      (s.mem.chunk c).constructed = true :=
    PacketMemory.of_setChunk (fun chunk => chunk.constructed = true) hsame h
  cases h with
  | construct again m c' _ =>
    refine ⟨some c', ?_⟩
    intro c hc
    by_cases heq : c' = c
    · exact .inr (heq ▸ rfl)
    · rw [PacketMemory.setChunk_of_ne _ (Ne.symm heq)] at hc
      exact .inl hc
  | reset | chunkOpen | header | serialize | release | lastRelease | pushGlobal | push =>
    refine ⟨none, fun c hc => .inl (hof ?_ hc)⟩
    exact fun h => h
  | close n m p hp =>
    refine ⟨none, fun c hc => .inl (hof ?_ hc)⟩
    intro h
    unfold Packet.close PacketChunk.close at h
    split at h
    · exact h
    · split at h <;> exact h
  | _ => exact ⟨none, fun c hc => .inl hc⟩

theorem finite_constructed (h : machine.Reach ok start s) :
    {c | (s.mem.chunk c).constructed = true}.Finite := by
  refine h.invariant (fun s => {c | (s.mem.chunk c).constructed = true}.Finite) ?_ ?_
  · have hnone : {c : C | ((start : PacketConf T C).mem.chunk c).constructed = true} = ∅ := by
      simp [start, PacketMemory.start, PacketChunk.absent]
    rw [hnone]
    exact Set.finite_empty
  · intro s a s' _ hs _ hnext
    rcases next_view hnext with ⟨t, old, fs, mem, new, hf, hstep, rfl⟩ | ⟨n, p, _, _, _, rfl⟩
    · obtain ⟨o, ho⟩ := hstep.constructed
      refine (hs.union o.toFinset.finite_toSet).subset ?_
      intro c hc
      rcases ho c hc with hold | hnew
      · exact .inl hold
      · exact .inr (by simpa using hnew)
    · exact hs

/-- How many steps a thread takes at most from the frame on, when it runs alone. -/
def Frame.effort (σ : PacketMemory T C) : Frame C → ℕ
  | .release c => if (σ.chunk c).useCount = 1 then 4 else 1
  | .pushGlobal _ => 3
  | .push _ => 2
  | .dropped _ => 5
  | .close _ _ => 1
  | .serialize _ _ => 6
  | .header _ _ => 7
  | .chunkOpen _ => 8
  | .reset again _ => if again then 9 else 29
  | .assign again _ _ => if again then 14 else 34
  | .construct again _ => if again then 15 else 35
  | .tryDequeue again i _ => (if again then 16 else 36) + (tryPopCount - i)
  | .freeSize _ => 27
  | .isOpen _ => 28
  | .open' _ => 47

omit [DecidableEq T] [DecidableEq C] in
theorem Frame.effort_of_message {f : Frame C} (h : f.message.isSome) (σ τ : PacketMemory T C) :
    f.effort σ = f.effort τ := by
  cases f <;> first | rfl | exact absurd h Bool.false_ne_true

omit [DecidableEq T] [DecidableEq C] in
theorem effort_releaseFrames_le (σ : PacketMemory T C) (o : Option C) :
    stackWeight (Frame.effort σ) (releaseFrames o) ≤ 4 := by
  cases o with
  | none => simp [releaseFrames]
  | some c =>
    simp only [releaseFrames, stackWeight_cons, stackWeight_nil, Frame.effort]
    split <;> omega

/-- Each step leaves less to do. -/
theorem step_effort (h : step s.mem t f c = some (mem, new))
    (hlive : ∀ c, f = .push c → (s.mem.chunk c).useCount ≠ 0) :
    stackWeight (Frame.effort mem) new < f.effort s.mem := by
  cases step_spec h [] with
  | plain f g _ hplain _ =>
    cases step_flow h (List.mem_singleton_self g) hplain with
    | retry again i m hi => cases again <;> simp [Frame.effort] <;> omega
    | allocate again i m => cases again <;> simp [Frame.effort] <;> omega
    | _ => simp [Frame.effort, tryPopCount]
  | reset again m c g _ hplain _ =>
    cases step_flow h (List.mem_singleton_self g) hplain <;> simp [Frame.effort]
  | dequeue again i m => cases again <;> simp [Frame.effort] <;> omega
  | construct again m => cases again <;> simp [Frame.effort]
  | assign again c m =>
    have hle := effort_releaseFrames_le (s.mem.setLPacketChunk t (some c)) (s.mem.lPacketChunk t)
    cases again <;> simp [Frame.effort] <;> omega
  | release c hne => simp [Frame.effort, hne]
  | lastRelease c hone => simp [Frame.effort, hone]
  | push c =>
    have hne := hlive c rfl
    simp [Frame.effort, hne]
  | dropped owner => exact Nat.lt_succ_of_le (effort_releaseFrames_le s.mem owner)
  | _ => simp [Frame.effort, PacketMemory.drop]

/-- A frame of `MakePacketBuffer` goes on with the same message and the packet it has, until
`Open` gives it a packet, it returns its packet, or its serialization fails. -/
theorem PacketStep.call (h : PacketStep t s.mem fs [f] mem new) {m : Message}
    (hm : f.message = some m) :
    (∃ g ∈ new, g.message = some m ∧ (g.packet = f.packet ∨ ∃ c, f = .chunkOpen m ∧
      m.packetSize ≤ (s.mem.chunk c).freeSize)) ∨
    f.packet.isSome ∧ (new = [] → ∃ n, f = .close n m) := by
  cases h with
  | plain f g hplain hplain' hmessage =>
    refine .inl ⟨g, List.mem_singleton_self g, hmessage.trans hm, .inl ?_⟩
    rw [Frame.packet_of_plain hplain, Frame.packet_of_plain hplain']
  | reset again m' c g hl hplain hmessage =>
    refine .inl ⟨g, List.mem_singleton_self g, hmessage.trans hm, .inl ?_⟩
    rw [Frame.packet_of_plain hplain]
    rfl
  | dequeue again i m' | construct again m' =>
    exact .inl ⟨_, List.mem_singleton_self _, hm, .inl rfl⟩
  | assign again c m' =>
    exact .inl ⟨_, List.mem_append_right _ (List.mem_singleton_self _), hm, .inl rfl⟩
  | chunkOpen m' c hl _ hfit =>
    obtain rfl := Option.some.inj hm
    exact .inl ⟨_, List.mem_singleton_self _, rfl, .inr ⟨c, rfl, hfit⟩⟩
  | header | serialize | serializeFail => exact .inr ⟨rfl, by simp⟩
  | close n m' =>
    obtain rfl := Option.some.inj hm
    exact .inr ⟨rfl, fun _ => ⟨n, rfl⟩⟩
  | release | lastRelease | pushGlobal | push | dropped => exact absurd hm.symm (Option.some_ne_none m)

/-- Frames under the top frame of a stack belong to `MakePacketBuffer`. -/
theorem below_making (h : machine.Reach ok start s) (t : T) :
    ∀ g ∈ (s.frames t).tail, g.message.isSome := by
  refine h.invariant (fun s => ∀ t, ∀ g ∈ (s.frames t).tail, g.message.isSome) ?_ ?_ t
  · simp [start]
  · intro s a s' _ hs _ hnext
    refine Machine.suspended_next (P := fun g => g.message.isSome) ?_ ?_ hnext hs
    · intro mem t f c mem' new hstep g hg
      cases step_spec hstep [] with
      | assign again c m =>
        cases hl : mem.lPacketChunk t with
        | none => simp [hl, releaseFrames] at hg
        | some c =>
          simp only [hl, releaseFrames, List.singleton_append, List.tail_cons] at hg
          obtain rfl := List.mem_singleton.mp hg
          rfl
      | dropped owner => cases owner <;> exact absurd hg List.not_mem_nil
      | _ => exact absurd hg List.not_mem_nil
    · intro mem frames t c r he f hf
      have hidle : frames t = [] := by
        obtain ⟨mem', g⟩ := r
        cases enter_spec he <;> assumption
      rw [hidle] at hf
      exact absurd hf List.not_mem_nil

end

section

variable [Fintype T] {s s' : PacketConf T C} {t : T} {f : Frame C} {fs new : List (Frame C)}
  {mem : PacketMemory T C} {c : Choice T C}

/-- A thread can go on unless it has a null packet. -/
theorem step_progress [Infinite C] (hr : machine.Reach (Succeeds t) start s) (hf : f ∈ s.frames t) :
    (∃ m, f = .header none m) ∨
      ∃ c, c ≠ .serialized false ∧ (step s.mem t f c).isSome := by
  have hassert := asserted_reach hr f hf
  have hpacket {n : ℕ} {m : Message} (hn : f.packet = some n) (hm : f.message = some m) :
      ∃ p, s.mem.packets[n]? = some p := by
    obtain ⟨p, hp, _⟩ := (working_reach hr).packet t f n m hf hn hm
    exact ⟨p, hp⟩
  cases f with
  | open' | assign | release | pushGlobal | push | dropped =>
    exact .inr ⟨.go, by simp, rfl⟩
  | tryDequeue again i m => exact .inr ⟨.take none, by simp, rfl⟩
  | construct again m =>
    obtain ⟨c, hc⟩ := (finite_constructed hr).exists_notMem
    have habsent : ¬ (s.mem.chunk c).constructed = true := hc
    refine .inr ⟨.malloc c, by simp, ?_⟩
    rw [step, if_neg habsent]
    rfl
  | reset again m | isOpen m | freeSize m =>
    obtain ⟨c, hl⟩ := Option.isSome_iff_exists.mp hassert
    refine .inr ⟨.go, by simp, ?_⟩
    rw [step, hl]
    rfl
  | chunkOpen m =>
    obtain ⟨c, hl, _⟩ := hassert
    refine .inr ⟨.go, by simp, ?_⟩
    rw [step, hl]
    rfl
  | header packet m =>
    cases packet with
    | none => exact .inl ⟨m, rfl⟩
    | some n =>
      obtain ⟨p, hp⟩ := hpacket rfl rfl
      refine .inr ⟨.go, by simp, ?_⟩
      rw [step, hp]
      rfl
  | serialize n m =>
    obtain ⟨p, hp⟩ := hpacket rfl rfl
    refine .inr ⟨.serialized true, by simp, ?_⟩
    rw [step, hp]
    rfl
  | close n m =>
    obtain ⟨p, hp⟩ := hpacket rfl rfl
    refine .inr ⟨.go, by simp, ?_⟩
    rw [step, hp]
    rfl

/-- A step of a thread leaves its whole stack less to do. -/
theorem next_effort {ok : PacketConf T C → Action T (Choice T C) → Prop}
    (hr : machine.Reach ok start s) (h : machine.next s (.step t c) = some s') :
    stackWeight (Frame.effort s'.mem) (s'.frames t) <
      stackWeight (Frame.effort s.mem) (s.frames t) := by
  rcases Machine.next_cases h with ⟨_, _, _, _, ha, _⟩ |
    ⟨t, c, f, fs, mem, new, ha, hf, he, rfl⟩ | ⟨_, _, ha, _⟩
  · exact absurd ha (by simp)
  · obtain ⟨rfl, rfl⟩ := Action.step.inj ha
    have hlive (c' : C) (heq : f = .push c') : (s.mem.chunk c').useCount ≠ 0 := by
      subst heq
      have hholds := top_le_weight (Frame.holds c') hf
      have hcounted := (tracked_reach hr c').counted
      simp only [Frame.holds, if_true] at hholds
      omega
    have hbelow : fs.map (Frame.effort mem) = fs.map (Frame.effort s.mem) := by
      apply List.map_congr_left
      intro g hg
      exact Frame.effort_of_message (below_making hr t g (by simp [hf, hg])) mem s.mem
    have hlt := step_effort he hlive
    simp only [Function.update_self, stackWeight_append, hf, stackWeight_cons]
    rw [stackWeight, stackWeight, stackWeight, hbelow]
    exact Nat.add_lt_add_right hlt _
  · exact absurd ha (by simp)

omit [Fintype T] in
/-- A step of a thread replaces its top frame. -/
theorem next_step_view (h : machine.next s (.step t c) = some s') :
    ∃ f fs mem new, s.frames t = f :: fs ∧ step s.mem t f c = some (mem, new) ∧
      s' = ⟨mem, Function.update s.frames t (new ++ fs)⟩ := by
  rcases Machine.next_cases h with ⟨_, _, _, _, ha, _⟩ |
    ⟨t, c, f, fs, mem, new, ha, hf, he, rfl⟩ | ⟨_, _, ha, _⟩
  · exact absurd ha (by simp)
  · obtain ⟨rfl, rfl⟩ := Action.step.inj ha
    exact ⟨f, fs, mem, new, hf, he, rfl⟩
  · exact absurd ha (by simp)

omit [Fintype T] in
theorem next_of_step (hf : s.frames t = f :: fs) (h : (step s.mem t f c).isSome) :
    ∃ s', machine.next s (.step t c) = some s' := by
  obtain ⟨⟨mem, new⟩, he⟩ := Option.isSome_iff_exists.mp h
  refine ⟨⟨mem, Function.update s.frames t (new ++ fs)⟩, ?_⟩
  simp only [Machine.next, hf, machine, he, Option.map_some]

omit [Fintype T] in
theorem PacketStep.message_of_new (h : PacketStep t s.mem fs [f] mem new) {g : Frame C}
    (hg : g ∈ new) : g.message = none ∨ g.message = f.message := by
  cases h with
  | plain f g' _ _ hmessage =>
    obtain rfl := List.mem_singleton.mp hg
    exact .inr hmessage
  | reset again m c g' _ _ hmessage =>
    obtain rfl := List.mem_singleton.mp hg
    exact .inr hmessage
  | assign again c m =>
    rcases List.mem_append.mp hg with hg | hg
    · exact .inl (message_of_releaseFrames hg)
    · obtain rfl := List.mem_singleton.mp hg
      exact .inr rfl
  | dropped owner => exact .inl (message_of_releaseFrames hg)
  | close | release => exact absurd hg List.not_mem_nil
  | serializeFail | lastRelease | pushGlobal | push =>
    obtain rfl := List.mem_singleton.mp hg
    exact .inl rfl
  | _ =>
    obtain rfl := List.mem_singleton.mp hg
    exact .inr rfl

/-- A thread that runs alone returns from a call whose packet fits. -/
theorem returns_of_fits [Infinite C] (hr : machine.Reach (Succeeds t) start s)
    (hfits : ∀ f ∈ s.frames t, ∀ m, f.message = some m → m.Fits) :
    machine.Leads (Succeeds t) t (fun s => s.frames t = []) s := by
  refine Machine.leads_of_effort
    (fun s => machine.Reach (Succeeds t) start s ∧ ∀ f ∈ s.frames t, ∀ m, f.message = some m → m.Fits)
    (fun s => stackWeight (Frame.effort s.mem) (s.frames t)) ?_ ?_ ⟨hr, hfits⟩
  · intro s h
    obtain ⟨hr, hfits⟩ := h
    cases hf : s.frames t with
    | nil => exact .inl rfl
    | cons f fs =>
      have hmem : f ∈ s.frames t := by simp [hf]
      rcases step_progress hr hmem with ⟨m, rfl⟩ | ⟨c, hc, hstep⟩
      · exact absurd (hfits _ hmem m rfl) (asserted_reach hr _ hmem)
      · obtain ⟨s', hs'⟩ := next_of_step hf hstep
        exact .inr ⟨c, s', by simp [Succeeds, hc], hs'⟩
  · intro s c s' h hc hs'
    obtain ⟨hr, hfits⟩ := h
    refine ⟨⟨hr.next hc hs', ?_⟩, next_effort hr hs'⟩
    obtain ⟨f, fs, mem, new, hf, hstep, rfl⟩ := next_step_view hs'
    intro g hg m hm
    rcases mem_update new hg with ⟨_, hnew⟩ | hother
    · rcases (step_spec hstep fs).message_of_new hnew with hnone | hmessage
      · exact absurd (hm.symm.trans hnone) (Option.some_ne_none m)
      · exact hfits f (by simp [hf]) m (hmessage.symm.trans hm)
    · exact hfits g (hother.mem hf) m hm

/-- A chunk has no room for a packet that does not fit. -/
theorem fits_of_room (hr : machine.Reach (Succeeds t) start s) (hf : f ∈ s.frames t) {m : Message}
    (hm : f.message = some m) {c : C} (h : m.packetSize ≤ (s.mem.chunk c).freeSize) : m.Fits := by
  have hused := (layout_reach hr).used c
  have hle := UInt32.le_iff_toNat_le.mp h
  rw [PacketChunk.freeSize, UInt32.toNat_sub_of_le _ _ (UInt32.le_iff_toNat_le.mpr hused),
    m.packetSize_toNat ((working_reach hr).fits t f m hf hm)] at hle
  exact hle.trans (Nat.sub_le _ _)

/-- A thread that runs alone in a call whose packet does not fit gets to a null packet. -/
theorem leads_to_null [Infinite C] (hr : machine.Reach (Succeeds t) start s) {m : Message}
    (hlarge : ¬ m.Fits) (hf : f ∈ s.frames t) (hm : f.message = some m) (hnone : f.packet = none) :
    machine.Leads (Succeeds t) t (fun s => .header none m ∈ s.frames t) s := by
  refine Machine.leads_of_effort
    (fun s => machine.Reach (Succeeds t) start s ∧
      ∃ f ∈ s.frames t, f.message = some m ∧ f.packet = none)
    (fun s => stackWeight (Frame.effort s.mem) (s.frames t)) ?_ ?_ ⟨hr, f, hf, hm, hnone⟩
  · intro s h
    obtain ⟨hr, f, hf, hm, _⟩ := h
    cases hs : s.frames t with
    | nil => exact absurd (hs ▸ hf) List.not_mem_nil
    | cons top fs =>
      have htop : top ∈ s.frames t := by simp [hs]
      rcases step_progress hr htop with ⟨m', rfl⟩ | ⟨c, hc, hstep⟩
      · obtain rfl := making_unique hr htop hf rfl (Option.isSome_iff_exists.mpr ⟨m, hm⟩)
        obtain rfl := Option.some.inj hm
        exact .inl (List.mem_cons_self)
      · obtain ⟨s', hs'⟩ := next_of_step hs hstep
        exact .inr ⟨c, s', by simp [Succeeds, hc], hs'⟩
  · intro s c s' h hc hs'
    obtain ⟨hr, f, hf, hm, hnone⟩ := h
    refine ⟨⟨hr.next hc hs', ?_⟩, next_effort hr hs'⟩
    obtain ⟨top, fs, mem, new, hs, hstep, rfl⟩ := next_step_view hs'
    simp only [Function.update_self, List.mem_append]
    rcases List.mem_cons.mp (hs ▸ hf) with rfl | hbelow
    · rcases (step_spec hstep fs).call hm with ⟨g, hg, hgm, hpacket | ⟨c, _, hroom⟩⟩ | ⟨hsome, _⟩
      · exact ⟨g, .inl hg, hgm, hpacket.trans hnone⟩
      · exact absurd (fits_of_room hr hf hm hroom) hlarge
      · rw [hnone] at hsome
        exact absurd hsome Bool.false_ne_true
    · exact ⟨f, .inr hbelow, hm, hnone⟩

omit [DecidableEq T] [DecidableEq C] [Fintype T] in
/-- Packet `n` has been returned for the message, with its header in front. -/
def PacketMemory.Complete (σ : PacketMemory T C) (n : ℕ) (m : Message) : Prop :=
  ∃ p, σ.packets[n]? = some p ∧ p.returned = true ∧
    p.mWriteSize.toNat = sizeofPacketHeader + m.pkt.length ∧
    (σ.chunk p.mOwnerChunk).slice p.mBuffer sizeofPacketHeader =
      (PacketHeader.mk p.mWriteSize m.pktId).write

/-- `Close` completes the packet. -/
theorem close_complete (hr : machine.Reach (Succeeds t) start s) {n : ℕ} {m : Message}
    (hf : .close n m ∈ s.frames t) (h : step s.mem t (.close n m) c = some (mem, new)) :
    mem.Complete n m := by
  obtain ⟨p, hp, hheader⟩ := asserted_reach hr _ hf
  obtain ⟨q, hq, _, _, hsize⟩ := (working_reach hr).packet t _ n m hf rfl rfl
  obtain rfl := Option.some.inj (hp.symm.trans hq)
  cases c <;> simp only [step, reduceCtorEq, hp, Option.map_some, Option.some.injEq,
    Prod.mk.injEq] at h
  obtain ⟨rfl, _⟩ := h
  have hclose : p.close (s.mem.chunk p.mOwnerChunk) m.packetSize =
      ({ p with mWriteSize := m.packetSize },
        (s.mem.chunk p.mOwnerChunk).close m.packetSize) := by
    rw [Packet.close, hsize, if_neg (UInt32.lt_irrefl _)]
  have hbuffers : ((s.mem.chunk p.mOwnerChunk).close m.packetSize).mBuffers =
      (s.mem.chunk p.mOwnerChunk).mBuffers := by
    unfold PacketChunk.close
    split <;> rfl
  simp only [PacketMemory.close, hclose]
  refine ⟨_, (PacketMemory.getElem?_setPacket hp _ n).trans (if_pos rfl), rfl, ?_, ?_⟩
  · exact m.packetSize_toNat ((working_reach hr).fits t _ m hf rfl)
  · rw [PacketMemory.setPacket_chunk, PacketMemory.setChunk_self, PacketChunk.slice, hbuffers]
    exact hheader

/-- The call of `MakePacketBuffer` for `m` has no null packet to write to, each of its steps goes
on with it or returns its packet complete, and it returns. -/
structure CallSafe (s : PacketConf T C) (t : T) (m : Message) : Prop where
  not_null : .header none m ∉ s.frames t
  result : ∀ c s', (∃ f ∈ s.frames t, f.message = some m) → Succeeds t s (.step t c) →
    machine.next s (.step t c) = some s' → (∃ f ∈ s'.frames t, f.message = some m) ∨
      ∃ n fs, s.frames t = .close n m :: fs ∧ s'.mem.Complete n m
  returns : (∃ f ∈ s.frames t, f.message = some m) →
    machine.Leads (Succeeds t) t (fun s' => s'.frames t = []) s

/-- Each step of a call goes on with it or returns its packet. -/
theorem call_result (hr : machine.Reach (Succeeds t) start s) {m : Message}
    (h : ∃ f ∈ s.frames t, f.message = some m) (hc : Succeeds t s (.step t c))
    (hs' : machine.next s (.step t c) = some s') : (∃ f ∈ s'.frames t, f.message = some m) ∨
      ∃ n fs, s.frames t = .close n m :: fs ∧ s'.mem.Complete n m := by
  obtain ⟨f, hf, hm⟩ := h
  obtain ⟨top, fs, mem, new, hs, hstep, rfl⟩ := next_step_view hs'
  have hok : c ≠ .serialized false := fun heq => hc (heq ▸ rfl)
  simp only [Function.update_self, List.mem_append]
  rcases List.mem_cons.mp (hs ▸ hf) with rfl | hbelow
  · have hspec := step_spec hstep fs
    rcases hspec.call hm with ⟨g, hg, hgm, _⟩ | ⟨hsome, hclose⟩
    · exact .inl ⟨g, .inl hg, hgm⟩
    · cases new with
      | nil =>
        obtain ⟨n, rfl⟩ := hclose rfl
        exact .inr ⟨n, fs, hs, close_complete hr hf hstep⟩
      | cons g rest =>
        have hg : g ∈ g :: rest := List.mem_cons_self
        have hmessage := step_message hstep hok hsome g hg
        rcases hspec.message_of_new hg with hnone | heq
        · rw [hnone] at hmessage
          exact absurd hmessage Bool.false_ne_true
        · exact .inl ⟨g, .inl hg, heq.trans hm⟩
  · exact .inl ⟨f, .inr hbelow, hm⟩

/-- While no serialization of the thread fails, a call whose packet fits is safe. -/
theorem callSafe_of_fits [Infinite C] (hr : machine.Reach (Succeeds t) start s) {m : Message}
    (hfits : m.Fits) : CallSafe s t m := by
  refine ⟨?_, ?_, ?_⟩
  · intro hnull
    exact asserted_reach hr _ hnull hfits
  · intro c s' hin hc hs'
    exact call_result hr hin hc hs'
  · intro hin
    obtain ⟨f, hf, hm⟩ := hin
    apply returns_of_fits hr
    intro g hg m' hm'
    obtain rfl := making_unique hr hf hg (Option.isSome_iff_exists.mpr ⟨m, hm⟩)
      (Option.isSome_iff_exists.mpr ⟨m', hm'⟩)
    obtain rfl := Option.some.inj (hm.symm.trans hm')
    exact hfits

end

/-- Thread `t` makes its first packet, in a new chunk `c`. -/
def firstRun {T C : Type} (t : T) (c : C) : List (Action T (Choice T C)) :=
  [.enter t (.makePacketBuffer ⟨7, [1, 2, 3]⟩), .step t .go] ++
    List.replicate 10 (.step t (.take none)) ++ [.step t (.malloc c)] ++ fillRun t

def serializes : PacketConf T C → Action T (Choice T C) → Bool
  | _, .step _ (.serialized ok) => ok
  | _, _ => true

omit [DecidableEq T] [DecidableEq C] in
theorem succeeds_of_serializes (t : T) (s : PacketConf T C) (a : Action T (Choice T C))
    (h : serializes s a = true) : Succeeds t s a := by
  rintro rfl
  exact absurd h Bool.false_ne_true

/-- `MakePacketBuffer` is safe in every state of the calling thread exactly for the messages whose
packet is no longer than a chunk. -/
theorem makePacketBuffer_safe_iff [Fintype T] [Infinite C] (t : T) (m : Message)
    (s s₁ : PacketConf T C) (h : machine.Reach (Succeeds t) start s)
    (hcall : machine.next s (.enter t (.makePacketBuffer m)) = some s₁) :
    (∀ s', machine.Reach (Succeeds t) s₁ s' → CallSafe s' t m) ↔
      sizeofPacketHeader + m.pkt.length ≤ packetChunkSize := by
  have hr₁ : machine.Reach (Succeeds t) start s₁ := h.next (by simp [Succeeds]) hcall
  constructor
  · intro hsafe
    by_contra hlarge
    have hf : .open' m ∈ s₁.frames t := by
      rcases Machine.next_cases hcall with ⟨_, _, mem, f, ha, he, rfl⟩ |
        ⟨_, _, _, _, _, _, ha, _⟩ | ⟨_, _, ha, _⟩
      · obtain ⟨rfl, rfl⟩ := Action.enter.inj ha
        simp only [machine, enter] at he
        split at he
        · obtain ⟨_, rfl⟩ := Prod.mk.inj (Option.some.inj he)
          simp
        · exact absurd he (by simp)
      · exact absurd ha (by simp)
      · exact absurd ha (by simp)
    obtain ⟨s', hr', hnull⟩ := (leads_to_null hr₁ hlarge hf rfl rfl).reach
    exact (hsafe s' hr').not_null hnull
  · intro hfits s' hr'
    exact callSafe_of_fits (hr₁.trans hr') hfits

/-- The second call of a thread. -/
theorem makePacketBuffer_safe_second :
    let s := machine.finalChecked serializes (start : PacketConf Bool ℕ) (firstRun true 0)
      (by decide)
    ∀ s', machine.Reach (Succeeds true)
        ((machine.next s (.enter true (.makePacketBuffer ⟨8, [4]⟩))).get (by decide)) s' →
      CallSafe s' true ⟨8, [4]⟩ :=
  (makePacketBuffer_safe_iff true ⟨8, [4]⟩ _ _
    ((Machine.reach_finalChecked machine serializes start (firstRun true 0) (by decide)).mono
      (succeeds_of_serializes true)) (Option.some_get _).symm).mpr (by decide)

/-- A message of 11993 bytes needs a packet of 12001, and gets a null packet to write to. -/
theorem makePacketBuffer_null :
    let m : Message := ⟨7, List.replicate 11993 0⟩
    ∃ s₁ s' : PacketConf Unit ℕ,
      machine.next start (.enter () (.makePacketBuffer m)) = some s₁ ∧
      machine.Reach (Succeeds ()) s₁ s' ∧ .header none m ∈ s'.frames () := by
  intro m
  have hlen : m.pkt.length = 11993 := List.length_replicate
  have hlarge : ¬ m.Fits := by
    simp [Message.Fits, hlen, sizeofPacketHeader, packetChunkSize]
  have hcall : machine.next start (.enter () (.makePacketBuffer m)) =
      some (⟨.start, Function.update (fun _ => []) () [.open' m]⟩ : PacketConf Unit ℕ) := by
    simp [Machine.next, machine, enter, start, hlen, intMax]
  have hr₁ : machine.Reach (Succeeds ()) start _ := .next .start (by simp [Succeeds]) hcall
  have hnull := leads_to_null hr₁ hlarge (t := ()) List.mem_cons_self rfl rfl
  obtain ⟨s', hr', hmem⟩ := hnull.reach
  exact ⟨_, s', hcall, hr', hmem⟩

end ServerCore.Packets
