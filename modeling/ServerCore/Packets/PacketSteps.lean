import ServerCore.Packets.PacketManager

namespace ServerCore.Packets

open Framework ConcurrentQueue

variable {T C : Type} [DecidableEq T] [DecidableEq C]

namespace Frame

/-- Frames of `MakePacketBuffer` that hold neither a chunk nor a packet. -/
def plain : Frame C → Bool
  | .open' _ | .tryDequeue .. | .construct .. | .isOpen _ | .freeSize _ | .chunkOpen _
  | .header none _ => true
  | _ => false

/-- The message that `MakePacketBuffer` was called with. -/
def message : Frame C → Option Message
  | .open' m | .tryDequeue _ _ m | .construct _ m | .assign _ _ m | .reset _ m | .isOpen m
  | .freeSize m | .chunkOpen m | .header _ m | .serialize _ m | .close _ m => some m
  | _ => none

end Frame

theorem PacketChunk.open'_cases (c : PacketChunk) (allocSize : UInt32) :
    c.open' allocSize = (c, none) ∨ c.mIsOpen = false ∧ allocSize ≤ c.freeSize ∧
      c.open' allocSize = ({ c with mIsOpen := true }, some c.mUsedSize.toNat) := by
  unfold PacketChunk.open'
  split
  · exact .inl rfl
  split
  · exact .inl rfl
  split
  · exact .inl rfl
  · next hopen hfit => exact .inr ⟨by simpa using hopen, UInt32.not_lt.mp hfit, rfl⟩

/-- All that thread `t` can do: it replaces the frames `old` on top of `fs`. -/
inductive PacketStep (t : T) (σ : PacketMemory T C) (fs : List (Frame C)) :
    List (Frame C) → PacketMemory T C → List (Frame C) → Prop
  | plain (f g) : f.plain = true → g.plain = true → g.message = f.message →
      PacketStep t σ fs [f] σ [g]
  | dequeue (again i m producer c rest) :
      σ.mPacketChunks.Perm ((producer, c) :: rest) →
      PacketStep t σ fs [.tryDequeue again i m] (σ.setQueue rest) [.assign again c m]
  | construct (again m c) : (σ.chunk c).constructed = false →
      PacketStep t σ fs [.construct again m] (σ.setChunk c .construct) [.assign again c m]
  | assign (again c m) : PacketStep t σ fs [.assign again c m]
      (σ.setLPacketChunk t (some c)) (releaseFrames (σ.lPacketChunk t) ++ [.reset again m])
  | reset (again m c g) : σ.lPacketChunk t = some c → g.plain = true → g.message = some m →
      PacketStep t σ fs [.reset again m] (σ.setChunk c (σ.chunk c).reset) [g]
  | chunkOpen (m c) : σ.lPacketChunk t = some c → (σ.chunk c).mIsOpen = false →
      m.packetSize ≤ (σ.chunk c).freeSize →
      PacketStep t σ fs [.chunkOpen m]
        ((σ.setChunk c
          { σ.chunk c with mIsOpen := true, useCount := (σ.chunk c).useCount + 1 }).addPacket
          ⟨(σ.chunk c).mUsedSize.toNat, m.packetSize, 0, c, 1, false, []⟩)
        [.header (some σ.packets.length) m]
  | header (n m p) : σ.packets[n]? = some p →
      PacketStep t σ fs [.header (some n) m]
        (σ.write p.mOwnerChunk p.mBuffer m.header.write) [.serialize n m]
  | serialize (n m p) : σ.packets[n]? = some p →
      PacketStep t σ fs [.serialize n m]
        (σ.write p.mOwnerChunk (p.mBuffer + Network.sizeofPacketHeader) m.pkt) [.close n m]
  | serializeFail (n m p) : σ.packets[n]? = some p →
      PacketStep t σ fs [.serialize n m] (σ.drop n p).1 [(σ.drop n p).2]
  | close (n m p) : σ.packets[n]? = some p →
      PacketStep t σ fs [.close n m] (σ.close n p m.packetSize) []
  | release (c) : (σ.chunk c).useCount ≠ 1 → PacketStep t σ fs [.release c]
      (σ.setChunk c { σ.chunk c with useCount := (σ.chunk c).useCount - 1 }) []
  | lastRelease (c) : (σ.chunk c).useCount = 1 → PacketStep t σ fs [.release c]
      (σ.setChunk c { σ.chunk c with useCount := 0 }) [.pushGlobal c]
  | pushGlobal (c) : PacketStep t σ fs [.pushGlobal c]
      (σ.setChunk c { σ.chunk c with useCount := 1 }) [.push c]
  | push (c) : PacketStep t σ fs [.push c]
      ((σ.setChunk c { σ.chunk c with useCount := (σ.chunk c).useCount + 1 }).setQueue
        (σ.mPacketChunks.enqueue t c)) [.release c]
  | dropped (owner) : PacketStep t σ fs [.dropped owner] σ (releaseFrames owner)
  | makePacketBuffer (m) : fs = [] → m.pkt.length ≤ intMax → PacketStep t σ fs [] σ [.open' m]
  | drop (n p) : fs = [] → σ.packets[n]? = some p → p.returned = true → 0 < p.useCount →
      PacketStep t σ fs [] (σ.drop n p).1 [(σ.drop n p).2]
  | exitThread (c) : fs = [] → σ.lPacketChunk t = some c → PacketStep t σ fs []
      (σ.setLPacketChunk t none) [.release c]

theorem step_spec {t : T} {σ σ' : PacketMemory T C} {f : Frame C} {c : Choice T C}
    {new : List (Frame C)} (h : step σ t f c = some (σ', new)) (fs : List (Frame C)) :
    PacketStep t σ fs [f] σ' new := by
  cases f with
  | open' m =>
    cases c <;> simp only [step, reduceCtorEq, Option.some.injEq, Prod.mk.injEq] at h
    obtain ⟨rfl, rfl⟩ := h
    split <;> exact .plain _ _ rfl rfl rfl
  | tryDequeue again i m =>
    cases c with
    | take producer =>
      cases producer with
      | none =>
        simp only [step, Option.some.injEq, Prod.mk.injEq] at h
        obtain ⟨rfl, rfl⟩ := h
        split <;> exact .plain _ _ rfl rfl rfl
      | some producer =>
        simp only [step, Option.map_eq_some_iff, Prod.mk.injEq] at h
        obtain ⟨⟨c, rest⟩, hr, rfl, rfl⟩ := h
        exact .dequeue _ _ _ _ _ _ (takeFrom_spec hr).1
    | _ => simp [step] at h
  | construct again m =>
    cases c <;> simp only [step, reduceCtorEq] at h
    split at h <;> simp only [Option.some.injEq, Prod.mk.injEq, reduceCtorEq] at h
    next hc =>
    obtain ⟨rfl, rfl⟩ := h
    exact .construct _ _ _ (by simpa using hc)
  | assign again chunk m =>
    cases c <;> simp only [step, reduceCtorEq, Option.some.injEq, Prod.mk.injEq] at h
    obtain ⟨rfl, rfl⟩ := h
    exact .assign _ _ _
  | reset again m =>
    cases c <;> simp only [step, reduceCtorEq, Option.map_eq_some_iff, Prod.mk.injEq] at h
    obtain ⟨chunk, hc, rfl, rfl⟩ := h
    split <;> exact .reset _ _ _ _ hc rfl rfl
  | isOpen m =>
    cases c <;> simp only [step, reduceCtorEq, Option.map_eq_some_iff, Prod.mk.injEq] at h
    obtain ⟨chunk, hc, rfl, rfl⟩ := h
    split <;> exact .plain _ _ rfl rfl rfl
  | freeSize m =>
    cases c <;> simp only [step, reduceCtorEq, Option.map_eq_some_iff, Prod.mk.injEq] at h
    obtain ⟨chunk, hc, rfl, rfl⟩ := h
    split <;> exact .plain _ _ rfl rfl rfl
  | chunkOpen m =>
    cases c <;> simp only [step, reduceCtorEq, Option.map_eq_some_iff] at h
    obtain ⟨chunk, hc, h⟩ := h
    rcases (σ.chunk chunk).open'_cases m.packetSize with he | ⟨hopen, hfit, he⟩
    · simp only [he, Prod.mk.injEq] at h
      obtain ⟨rfl, rfl⟩ := h
      exact .plain _ _ rfl rfl rfl
    · simp only [he, Prod.mk.injEq] at h
      obtain ⟨rfl, rfl⟩ := h
      exact .chunkOpen _ _ hc hopen hfit
  | header packet m =>
    cases packet <;> cases c <;>
      simp only [step, reduceCtorEq, Option.map_eq_some_iff, Prod.mk.injEq] at h
    obtain ⟨p, hp, rfl, rfl⟩ := h
    exact .header _ _ _ hp
  | serialize n m =>
    cases c <;> simp only [step, reduceCtorEq, Option.map_eq_some_iff] at h
    obtain ⟨p, hp, h⟩ := h
    split at h <;> simp only [Prod.mk.injEq] at h <;> obtain ⟨rfl, rfl⟩ := h
    · exact .serialize _ _ _ hp
    · exact .serializeFail _ _ _ hp
  | close n m =>
    cases c <;> simp only [step, reduceCtorEq, Option.map_eq_some_iff, Prod.mk.injEq] at h
    obtain ⟨p, hp, rfl, rfl⟩ := h
    exact .close _ _ _ hp
  | release chunk =>
    cases c <;> simp only [step, reduceCtorEq, Option.some.injEq, Prod.mk.injEq] at h
    obtain ⟨rfl, rfl⟩ := h
    split
    · next hone =>
      rw [hone]
      exact .lastRelease _ hone
    · next hone => exact .release _ hone
  | pushGlobal chunk =>
    cases c <;> simp only [step, reduceCtorEq, Option.some.injEq, Prod.mk.injEq] at h
    obtain ⟨rfl, rfl⟩ := h
    exact .pushGlobal _
  | push chunk =>
    cases c <;> simp only [step, reduceCtorEq, Option.some.injEq, Prod.mk.injEq] at h
    obtain ⟨rfl, rfl⟩ := h
    exact .push _
  | dropped owner =>
    cases c <;> simp only [step, reduceCtorEq, Option.some.injEq, Prod.mk.injEq] at h
    obtain ⟨rfl, rfl⟩ := h
    exact .dropped _

/-- Where `MakePacketBuffer` goes on without a chunk or a packet in hand. -/
inductive Flow (t : T) (σ : PacketMemory T C) : Frame C → Frame C → Prop
  | pop (m) : Flow t σ (.open' m) (.tryDequeue false 0 m)
  | current (m) : (σ.lPacketChunk t).isSome → Flow t σ (.open' m) (.isOpen m)
  | retry (again i m) : i + 1 < tryPopCount →
      Flow t σ (.tryDequeue again i m) (.tryDequeue again (i + 1) m)
  | allocate (again i m) : Flow t σ (.tryDequeue again i m) (.construct again m)
  | renewed (m) : Flow t σ (.reset false m) (.isOpen m)
  | refilled (m) : Flow t σ (.reset true m) (.chunkOpen m)
  | isOpen (m c) : σ.lPacketChunk t = some c → (σ.chunk c).mIsOpen = true →
      Flow t σ (.isOpen m) (.header none m)
  | isClosed (m) : Flow t σ (.isOpen m) (.freeSize m)
  | refill (m) : Flow t σ (.freeSize m) (.tryDequeue true 0 m)
  | room (m c) : σ.lPacketChunk t = some c → m.packetSize ≤ (σ.chunk c).freeSize →
      Flow t σ (.freeSize m) (.chunkOpen m)
  | refused (m c) : σ.lPacketChunk t = some c → ((σ.chunk c).open' m.packetSize).2 = none →
      Flow t σ (.chunkOpen m) (.header none m)

omit [DecidableEq C] in
theorem plain_of_releaseFrames {o : Option C} {g : Frame C} (h : g ∈ releaseFrames o) :
    g.plain = false := by
  cases o with
  | none => exact absurd h List.not_mem_nil
  | some c =>
    obtain rfl := List.mem_singleton.mp h
    rfl

/-- What comes before a frame that holds nothing. -/
theorem PacketStep.old_of_plain {t : T} {σ σ' : PacketMemory T C} {fs old new : List (Frame C)}
    (h : PacketStep t σ fs old σ' new) (hold : old ≠ []) {g : Frame C} (hg : g ∈ new)
    (hplain : g.plain = true) :
    ∃ f, old = [f] ∧ (f.plain = true ∨ ∃ again m, f = .reset again m) := by
  cases h with
  | plain f g' hf _ _ => exact ⟨f, rfl, .inl hf⟩
  | reset again m c g' _ _ _ => exact ⟨_, rfl, .inr ⟨again, m, rfl⟩⟩
  | assign again c m =>
    rcases List.mem_append.mp hg with hg | hg
    · simp [plain_of_releaseFrames hg] at hplain
    · obtain rfl := List.mem_singleton.mp hg
      exact absurd hplain Bool.false_ne_true
  | dropped owner => simp [plain_of_releaseFrames hg] at hplain
  | close | release => exact absurd hg List.not_mem_nil
  | makePacketBuffer | drop | exitThread => exact absurd rfl hold
  | _ =>
    obtain rfl := List.mem_singleton.mp hg
    exact absurd hplain Bool.false_ne_true

theorem step_flow {t : T} {σ σ' : PacketMemory T C} {f g : Frame C} {c : Choice T C}
    {new : List (Frame C)} (h : step σ t f c = some (σ', new)) (hg : g ∈ new)
    (hplain : g.plain = true) : Flow t σ f g := by
  cases f with
  | open' m =>
    cases c <;> simp only [step, reduceCtorEq, Option.some.injEq, Prod.mk.injEq] at h
    obtain ⟨rfl, rfl⟩ := h
    obtain rfl := List.mem_singleton.mp hg
    split
    · exact .pop m
    · next hl => exact .current m (Option.isSome_iff_ne_none.mpr (by simpa using hl))
  | tryDequeue again i m =>
    cases c with
    | take producer =>
      cases producer with
      | none =>
        simp only [step, Option.some.injEq, Prod.mk.injEq] at h
        obtain ⟨rfl, rfl⟩ := h
        obtain rfl := List.mem_singleton.mp hg
        split
        · next hi => exact .retry again i m hi
        · exact .allocate again i m
      | some producer =>
        simp only [step, Option.map_eq_some_iff, Prod.mk.injEq] at h
        obtain ⟨_, _, rfl, rfl⟩ := h
        obtain rfl := List.mem_singleton.mp hg
        exact absurd hplain Bool.false_ne_true
    | _ => simp [step] at h
  | reset again m =>
    cases c <;> simp only [step, reduceCtorEq, Option.map_eq_some_iff, Prod.mk.injEq] at h
    obtain ⟨chunk, _, rfl, rfl⟩ := h
    obtain rfl := List.mem_singleton.mp hg
    cases again with
    | false => exact .renewed m
    | true => exact .refilled m
  | isOpen m =>
    cases c <;> simp only [step, reduceCtorEq, Option.map_eq_some_iff, Prod.mk.injEq] at h
    obtain ⟨chunk, hl, rfl, rfl⟩ := h
    obtain rfl := List.mem_singleton.mp hg
    split
    · next hopen => exact .isOpen m chunk hl hopen
    · exact .isClosed m
  | freeSize m =>
    cases c <;> simp only [step, reduceCtorEq, Option.map_eq_some_iff, Prod.mk.injEq] at h
    obtain ⟨chunk, hl, rfl, rfl⟩ := h
    obtain rfl := List.mem_singleton.mp hg
    split
    · exact .refill m
    · next hroom => exact .room m chunk hl (UInt32.not_lt.mp hroom)
  | chunkOpen m =>
    cases c <;> simp only [step, reduceCtorEq, Option.map_eq_some_iff] at h
    obtain ⟨chunk, hl, h⟩ := h
    rcases (σ.chunk chunk).open'_cases m.packetSize with he | ⟨_, _, he⟩ <;>
      simp only [he, Prod.mk.injEq] at h <;> obtain ⟨rfl, rfl⟩ := h <;>
      obtain rfl := List.mem_singleton.mp hg
    · exact .refused m chunk hl (by rw [he])
    · exact absurd hplain Bool.false_ne_true
  | construct again m =>
    cases c <;> simp only [step, reduceCtorEq] at h
    split at h <;> simp only [Option.some.injEq, Prod.mk.injEq, reduceCtorEq] at h
    obtain ⟨rfl, rfl⟩ := h
    obtain rfl := List.mem_singleton.mp hg
    exact absurd hplain Bool.false_ne_true
  | header packet m =>
    cases packet <;> cases c <;>
      simp only [step, reduceCtorEq, Option.map_eq_some_iff, Prod.mk.injEq] at h
    obtain ⟨_, _, rfl, rfl⟩ := h
    obtain rfl := List.mem_singleton.mp hg
    exact absurd hplain Bool.false_ne_true
  | _ =>
    obtain ⟨f, hold, hf⟩ := (step_spec h []).old_of_plain (List.cons_ne_nil _ _) hg hplain
    obtain rfl := List.singleton_inj.mp hold
    rcases hf with hf | ⟨_, _, heq⟩
    · exact absurd hf Bool.false_ne_true
    · exact absurd heq (by simp)

theorem enter_spec {t : T} {σ σ' : PacketMemory T C} {frames : T → List (Frame C)} {f : Frame C}
    {c : Choice T C} (h : enter σ frames t c = some (σ', f)) :
    PacketStep t σ (frames t) [] σ' [f] := by
  cases c <;> simp only [enter, reduceCtorEq] at h
  case makePacketBuffer m =>
    split at h <;> simp only [Option.some.injEq, Prod.mk.injEq, reduceCtorEq] at h
    next hc =>
    obtain ⟨rfl, rfl⟩ := h
    exact .makePacketBuffer _ (by simpa using hc.1) hc.2
  case drop n =>
    obtain ⟨p, hp, h⟩ := Option.bind_eq_some_iff.mp h
    split at h <;> simp only [Option.some.injEq, reduceCtorEq] at h
    next hc =>
    obtain ⟨rfl, rfl⟩ := Prod.mk.inj h
    exact .drop _ _ (by simpa using hc.1) hp hc.2.1 hc.2.2
  case exitThread =>
    split at h <;> simp only [Option.map_eq_some_iff, Prod.mk.injEq, reduceCtorEq] at h
    next hc =>
    obtain ⟨c, hl, rfl, rfl⟩ := h
    exact .exitThread _ (by simpa using hc) hl

omit [DecidableEq T] [DecidableEq C] in
theorem env_spec {σ σ' : PacketMemory T C} {c : Choice T C} (h : env σ c = some σ') :
    ∃ n p, σ.packets[n]? = some p ∧ p.returned = true ∧ 0 < p.useCount ∧
      σ' = σ.setPacket n { p with useCount := p.useCount + 1 } := by
  cases c <;> simp only [env, reduceCtorEq] at h
  case copy n =>
    obtain ⟨p, hp, h⟩ := Option.bind_eq_some_iff.mp h
    split at h <;> simp only [Option.some.injEq, reduceCtorEq] at h
    next hc => exact ⟨n, p, hp, hc.1, hc.2, h.symm⟩

/-- Each action is one of a thread, or copies the pointer to a returned packet. -/
theorem next_view {s s' : PacketConf T C} {a : Action T (Choice T C)}
    (h : machine.next s a = some s') :
    (∃ t old fs mem new, s.frames t = old ++ fs ∧ PacketStep t s.mem fs old mem new ∧
      s' = ⟨mem, Function.update s.frames t (new ++ fs)⟩) ∨
    ∃ n p, s.mem.packets[n]? = some p ∧ p.returned = true ∧ 0 < p.useCount ∧
      s' = ⟨s.mem.setPacket n { p with useCount := p.useCount + 1 }, s.frames⟩ := by
  rcases Machine.next_cases h with ⟨t, c, mem, f, rfl, he, rfl⟩ |
    ⟨t, c, f, fs, mem, new, rfl, hf, he, rfl⟩ | ⟨c, mem, rfl, he, rfl⟩
  · exact .inl ⟨t, [], s.frames t, mem, [f], rfl, enter_spec he, rfl⟩
  · exact .inl ⟨t, [f], fs, mem, new, hf, step_spec he fs, rfl⟩
  · obtain ⟨n, p, hp, hreturned, hpos, rfl⟩ := env_spec he
    exact .inr ⟨n, p, hp, hreturned, hpos, rfl⟩

end ServerCore.Packets
