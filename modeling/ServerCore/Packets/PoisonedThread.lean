import ServerCore.Packets.NullPacket

namespace ServerCore.Packets

open Framework Network

variable {T C : Type}

/-- Frames that neither reset the thread's chunk nor work on a packet in it. -/
def Frame.Waits : Frame C → Prop
  | .open' _ | .isOpen _ | .header none _ | .release _ | .pushGlobal _ | .push _ | .dropped _ =>
      True
  | _ => False

/-- The chunk of thread `t` is open. -/
def ChunkOpen (σ : PacketMemory T C) (t : T) : Prop :=
  ∃ c, σ.lPacketChunk t = some c ∧ (σ.chunk c).mIsOpen = true

/-- The chunk of thread `t` is open and nothing that the thread does will close it. -/
structure Poisoned (t : T) (s : PacketConf T C) : Prop where
  chunkOpen : ChunkOpen s.mem t
  waits : ∀ f ∈ s.frames t, f.Waits

/-- A thread that makes a packet has its chunk open. -/
def Opened (t : T) (s : PacketConf T C) : Prop :=
  ∀ f ∈ s.frames t, f.packet.isSome → ChunkOpen s.mem t

theorem Frame.waits_of_message {f : Frame C} (h : f.message = none) : f.Waits := by
  cases f <;> trivial

variable [DecidableEq T] [DecidableEq C]

section

variable [Fintype T] {ok : PacketConf T C → Action T (Choice T C) → Prop} {s s' : PacketConf T C}
  {t u : T} {f : Frame C} {old fs new : List (Frame C)} {mem : PacketMemory T C} {c : Choice T C}

/-- Steps of other threads leave the thread's chunk open. -/
theorem ChunkOpen.keep (h : ChunkOpen s.mem u) (hr : machine.Reach ok start s)
    (hf : s.frames t = old ++ fs) (hstep : PacketStep t s.mem fs old mem new)
    (hbusy : ∀ f ∈ old, f.message.isSome → u ≠ t)
    (hcurrent : mem.lPacketChunk u = s.mem.lPacketChunk u) : ChunkOpen mem u := by
  obtain ⟨c, hl, hopen⟩ := h
  have hsame := hstep.keeps_chunk_of hr hf hbusy hl
  exact ⟨c, hcurrent.trans hl, hsame.mIsOpen.trans hopen⟩

theorem ChunkOpen.other (h : ChunkOpen s.mem u) (hr : machine.Reach ok start s)
    (hf : s.frames t = old ++ fs) (hstep : PacketStep t s.mem fs old mem new) (hu : u ≠ t) :
    ChunkOpen mem u :=
  h.keep hr hf hstep (fun _ _ _ => hu) (hstep.lPacketChunk_other hu)

omit [DecidableEq T] [Fintype T] in
/-- What leaves the flag of a chunk leaves the thread's chunk open. -/
theorem ChunkOpen.setChunk {σ : PacketMemory T C} (h : ChunkOpen σ t) {c : C} {chunk : PacketChunk}
    (hsame : chunk.mIsOpen = (σ.chunk c).mIsOpen) : ChunkOpen (σ.setChunk c chunk) t := by
  obtain ⟨c', hl, hopen⟩ := h
  refine ⟨c', hl, ?_⟩
  by_cases hc : c' = c
  · subst hc
    rw [PacketMemory.setChunk_self]
    exact hsame.trans hopen
  · rw [PacketMemory.setChunk_of_ne _ hc]
    exact hopen

/-- What a thread does with its packet leaves its chunk open. -/
theorem Opened.step (hs : Opened t s) (hr : machine.Reach ok start s)
    (hf : s.frames t = old ++ fs) (hstep : PacketStep t s.mem fs old mem new) :
    Opened t ⟨mem, Function.update s.frames t (new ++ fs)⟩ := by
  intro g hg hpacket
  simp only [Function.update_self, List.mem_append] at hg
  rcases hg with hnew | hbelow
  · have hheld {f : Frame C} (hold : f ∈ old) (hk : f.packet.isSome) : ChunkOpen s.mem t :=
      hs f (by simp [hf, hold]) hk
    cases hstep with
    | chunkOpen m c hl _ _ =>
      refine ⟨c, hl, ?_⟩
      rw [PacketMemory.addPacket_chunk, PacketMemory.setChunk_self]
    | header n m p _ | serialize n m p _ =>
      exact (hheld (List.mem_singleton_self _) rfl).setChunk rfl
    | plain f g' _ hplain _ | reset _ _ _ g' _ hplain _ =>
      obtain rfl := List.mem_singleton.mp hnew
      rw [Frame.packet_of_plain hplain] at hpacket
      exact absurd hpacket Bool.false_ne_true
    | assign again c m =>
      rcases List.mem_append.mp hnew with hrelease | hreset
      · obtain ⟨n, hn⟩ := Option.isSome_iff_exists.mp hpacket
        have hsome := Frame.message_of_packet hn
        simp [message_of_releaseFrames hrelease] at hsome
      · obtain rfl := List.mem_singleton.mp hreset
        exact absurd hpacket Bool.false_ne_true
    | dropped owner =>
      obtain ⟨n, hn⟩ := Option.isSome_iff_exists.mp hpacket
      have hsome := Frame.message_of_packet hn
      simp [message_of_releaseFrames hnew] at hsome
    | close | release => exact absurd hnew List.not_mem_nil
    | _ =>
      obtain rfl := List.mem_singleton.mp hnew
      exact absurd hpacket Bool.false_ne_true
  · have hmem : g ∈ s.frames t := by simp [hf, hbelow]
    have hother : Other s.frames t fs t g := .inl ⟨rfl, hbelow⟩
    obtain ⟨n, hn⟩ := Option.isSome_iff_exists.mp hpacket
    have hm := Frame.message_of_packet hn
    refine (hs g hmem hpacket).keep hr hf hstep ?_ (hstep.keeps_lPacketChunk hr hf hother hm)
    intro f hold hf'
    simp [old_message hr hf hbelow hm hold] at hf'

theorem opened_reach (h : machine.Reach ok start s) (t : T) : Opened t s := by
  refine h.invariant (Opened t) (by simp [Opened, start]) ?_
  intro s a s' hr hs _ hnext
  rcases next_view hnext with ⟨u, old, fs, mem, new, hf, hstep, rfl⟩ | ⟨n, p, _, _, _, rfl⟩
  · by_cases hu : t = u
    · subst hu
      exact hs.step hr hf hstep
    · intro g hg hpacket
      simp only [Function.update_of_ne hu] at hg
      exact (hs g hg hpacket).other hr hf hstep hu
  · exact hs

omit [Fintype T] in
/-- A poisoned thread finds its chunk open, and waits on. -/
theorem Frame.Waits.step (h : f.Waits) (hopen : ChunkOpen s.mem t)
    (hstep : step s.mem t f c = some (mem, new)) : ChunkOpen mem t ∧ ∀ g ∈ new, g.Waits := by
  obtain ⟨c', hl, hc'⟩ := id hopen
  cases f with
  | open' m =>
    cases c <;> simp only [Packets.step, reduceCtorEq, Option.some.injEq, Prod.mk.injEq] at hstep
    obtain ⟨rfl, rfl⟩ := hstep
    rw [hl]
    exact ⟨hopen, by simp [Frame.Waits]⟩
  | isOpen m =>
    cases c <;> simp only [Packets.step, reduceCtorEq, hl, hc', Option.map_some,
      Option.some.injEq, Prod.mk.injEq] at hstep
    obtain ⟨rfl, rfl⟩ := hstep
    exact ⟨hopen, by simp [Frame.Waits]⟩
  | header packet m =>
    cases packet with
    | none => cases c <;> simp [Packets.step] at hstep
    | some n => exact h.elim
  | release c' =>
    cases step_spec hstep [] with
    | plain f g hplain => exact absurd hplain Bool.false_ne_true
    | release => exact ⟨hopen.setChunk rfl, by simp⟩
    | lastRelease => exact ⟨hopen.setChunk rfl, by simp [Frame.Waits]⟩
  | pushGlobal c' =>
    cases step_spec hstep [] with
    | plain f g hplain => exact absurd hplain Bool.false_ne_true
    | pushGlobal => exact ⟨hopen.setChunk rfl, by simp [Frame.Waits]⟩
  | push c' =>
    cases step_spec hstep [] with
    | plain f g hplain => exact absurd hplain Bool.false_ne_true
    | push => exact ⟨hopen.setChunk rfl, by simp [Frame.Waits]⟩
  | dropped owner =>
    cases step_spec hstep [] with
    | plain f g hplain => exact absurd hplain Bool.false_ne_true
    | dropped =>
      refine ⟨hopen, ?_⟩
      intro g hg
      exact Frame.waits_of_message (message_of_releaseFrames hg)
  | _ => exact h.elim

/-- The calls of a sequence on thread `t`: the messages fit, and the thread does not end. -/
def Calls (t : T) (_ : PacketConf T C) (a : Action T (Choice T C)) : Prop :=
  (∀ m, a = .enter t (.makePacketBuffer m) → m.Fits) ∧ a ≠ .enter t .exitThread

/-- What `SerializeToArray` returns to thread `t`. -/
def serializations (t : T) (_ : PacketConf T C) : Action T (Choice T C) → List Bool
  | .step u (.serialized ok) => if u = t then [ok] else []
  | _ => []

/-- A poisoned thread stays poisoned. -/
theorem Poisoned.next {a : Action T (Choice T C)} (h : Poisoned t s) (hr : machine.Reach ok start s)
    (ha : Calls t s a) (hnext : machine.next s a = some s') : Poisoned t s' := by
  rcases Machine.next_cases hnext with ⟨u, c, mem, f, rfl, he, rfl⟩ |
    ⟨u, c, f, fs, mem, new, rfl, hf, he, rfl⟩ | ⟨c, mem, rfl, he, rfl⟩
  · by_cases hu : t = u
    · subst hu
      have hentered : ChunkOpen mem t ∧ f.Waits := by
        cases c with
        | exitThread => exact absurd rfl ha.2
        | makePacketBuffer m =>
          simp only [machine, enter] at he
          split at he
          · obtain ⟨rfl, rfl⟩ := Prod.mk.inj (Option.some.inj he)
            exact ⟨h.chunkOpen, trivial⟩
          · exact absurd he (by simp)
        | drop n =>
          obtain ⟨p, hp, he⟩ := Option.bind_eq_some_iff.mp he
          split at he
          · obtain ⟨rfl, rfl⟩ := Prod.mk.inj (Option.some.inj he)
            exact ⟨h.chunkOpen, trivial⟩
          · exact absurd he (by simp)
        | _ => exact absurd he (by simp [machine, enter])
      refine ⟨hentered.1, ?_⟩
      intro g hg
      simp only [Function.update_self, List.mem_cons] at hg
      rcases hg with rfl | hbelow
      · exact hentered.2
      · exact h.waits g hbelow
    · refine ⟨h.chunkOpen.other hr (List.nil_append _).symm (enter_spec he) hu, ?_⟩
      simp only [Function.update_of_ne hu]
      exact h.waits
  · by_cases hu : t = u
    · subst hu
      obtain ⟨hopen, hwaits⟩ := (h.waits f (by simp [hf])).step h.chunkOpen he
      refine ⟨hopen, ?_⟩
      intro g hg
      simp only [Function.update_self, List.mem_append] at hg
      rcases hg with hnew | hbelow
      · exact hwaits g hnew
      · exact h.waits g (by simp [hf, hbelow])
    · refine ⟨h.chunkOpen.other hr (hf.trans List.singleton_append.symm) (step_spec he fs) hu, ?_⟩
      simp only [Function.update_of_ne hu]
      exact h.waits
  · obtain ⟨n, p, _, _, _, rfl⟩ := env_spec he
    exact ⟨h.chunkOpen, h.waits⟩

/-- A serialization that fails poisons the thread. -/
theorem poisoned_of_failure (hr : machine.Reach ok start s)
    (hnext : machine.next s (.step t (.serialized false)) = some s') : Poisoned t s' := by
  obtain ⟨f, fs, mem, new, hf, hstep, rfl⟩ := next_step_view hnext
  have hmem : f ∈ s.frames t := by simp [hf]
  cases f <;> simp only [step, reduceCtorEq] at hstep
  case serialize n m =>
    obtain ⟨p, _, heq⟩ := Option.map_eq_some_iff.mp hstep
    obtain ⟨rfl, rfl⟩ := Prod.mk.inj heq
    refine ⟨opened_reach hr t _ hmem rfl, ?_⟩
    intro g hg
    simp only [Function.update_self, List.mem_append] at hg
    rcases hg with hnew | hbelow
    · obtain rfl := List.mem_singleton.mp hnew
      exact trivial
    · by_contra hwaits
      -- a thread is in one call at a time
      have hg' : g ∈ s.frames t := by simp [hf, hbelow]
      have hm : g.message.isSome := by
        by_contra hnone
        exact hwaits (Frame.waits_of_message (by simpa using hnone))
      have hnone := old_message hr (hf.trans List.singleton_append.symm) hbelow hm
        (List.mem_singleton_self _)
      exact absurd hnone (Option.some_ne_none m)

omit [DecidableEq C] [Fintype T] in
theorem false_mem_serializations {a : Action T (Choice T C)}
    (h : false ∈ serializations t s a) : a = .step t (.serialized false) := by
  cases a with
  | step u c =>
    cases c with
    | serialized ok =>
      simp only [serializations] at h
      split at h
      · next hu =>
        obtain rfl := List.mem_singleton.mp h
        rw [hu]
      · exact absurd h List.not_mem_nil
    | _ => exact absurd h List.not_mem_nil
  | _ => exact absurd h List.not_mem_nil

variable {results : List Bool}

/-- A failure anywhere in the sequence poisons the thread for good. -/
theorem poisoned_of_failed (h : machine.Logged (Calls t) (serializations t) start s results)
    (hfailed : false ∈ results) : Poisoned t s := by
  refine h.invariant (fun s results => false ∈ results → Poisoned t s) ?_ ?_ hfailed
  · intro hmem
    exact absurd hmem List.not_mem_nil
  · intro s a s' results hl hs ha hnext hmem
    rcases List.mem_append.mp hmem with hbefore | hnow
    · exact (hs hbefore).next hl.reach ha hnext
    · obtain rfl := false_mem_serializations hnow
      exact poisoned_of_failure hl.reach hnext

omit [Fintype T] in
/-- Without a failure every serialization of the sequence has succeeded. -/
theorem succeeds_of_no_failure
    (h : machine.Logged (Calls t) (serializations t) start s results)
    (hnone : false ∉ results) : machine.Reach (Succeeds t) start s := by
  refine h.invariant (fun s results => false ∉ results → machine.Reach (Succeeds t) start s)
    (fun _ => .start) ?_ hnone
  intro s a s' results _ hs _ hnext hmem
  rw [List.mem_append, not_or] at hmem
  refine (hs hmem.1).next ?_ hnext
  rintro rfl
  exact hmem.2 (by simp [serializations])

omit [Fintype T] in
/-- The call of a poisoned thread gets to a null packet. -/
theorem Poisoned.call_null (h : Poisoned t s) (hidle : s.frames t = []) {m : Message}
    (hlen : m.pkt.length ≤ intMax) :
    ∃ s₁ s', machine.next s (.enter t (.makePacketBuffer m)) = some s₁ ∧
      machine.Reach (Succeeds t) s₁ s' ∧ .header none m ∈ s'.frames t := by
  obtain ⟨c, hl, hopen⟩ := h.chunkOpen
  have hcall : machine.next s (.enter t (.makePacketBuffer m)) =
      some ⟨s.mem, Function.update s.frames t [.open' m]⟩ := by
    simp [Machine.next, machine, enter, hidle, hlen]
  have hfirst : machine.next ⟨s.mem, Function.update s.frames t [.open' m]⟩ (.step t .go) =
      some ⟨s.mem, Function.update s.frames t [.isOpen m]⟩ := by
    simp [Machine.next, machine, step, hl]
  have hsecond : machine.next ⟨s.mem, Function.update s.frames t [.isOpen m]⟩ (.step t .go) =
      some ⟨s.mem, Function.update s.frames t [.header none m]⟩ := by
    simp [Machine.next, machine, step, hl, hopen]
  refine ⟨_, _, hcall, (Machine.Reach.start.next ?_ hfirst).next ?_ hsecond, ?_⟩
  · simp [Succeeds]
  · simp [Succeeds]
  · simp

end

/-- After a call the chunk of thread `t` is not open, and its next call is safe if its packet fits
and its serialization succeeds. -/
structure Unpoisoned (t : T) (s : PacketConf T C) : Prop where
  notOpen : ¬ChunkOpen s.mem t
  safe : ∀ m s₁ s', m.Fits → machine.next s (.enter t (.makePacketBuffer m)) = some s₁ →
    machine.Reach (Succeeds t) s₁ s' → CallSafe s' t m

/-- A sequence of calls leaves its thread unpoisoned exactly when no serialization has failed. -/
theorem unpoisoned_iff [Fintype T] [Infinite C] {t : T} {s : PacketConf T C} {results : List Bool}
    (h : machine.Logged (Calls t) (serializations t) start s results) (hidle : s.frames t = []) :
    Unpoisoned t s ↔ false ∉ results := by
  constructor
  · intro hs hfailed
    exact hs.notOpen (poisoned_of_failed h hfailed).chunkOpen
  · intro hnone
    have hr := succeeds_of_no_failure h hnone
    refine ⟨?_, ?_⟩
    · rintro ⟨c, hl, hopen⟩
      obtain ⟨g, hg, _⟩ := openFor_reach hr c hl hopen
      rw [hidle] at hg
      exact absurd hg List.not_mem_nil
    · intro m s₁ s' hfits hcall hr'
      have hr₁ : machine.Reach (Succeeds t) start s₁ := hr.next (by simp [Succeeds]) hcall
      exact callSafe_of_fits (hr₁.trans hr') hfits

/-- Decides `Calls` for every thread. -/
def fittingCalls : PacketConf T C → Action T (Choice T C) → Bool
  | _, .enter _ (.makePacketBuffer m) => sizeofPacketHeader + m.pkt.length ≤ packetChunkSize
  | _, .enter _ .exitThread => false
  | _, _ => true

omit [DecidableEq T] [DecidableEq C] in
theorem calls_of_fittingCalls (t : T) (s : PacketConf T C) (a : Action T (Choice T C))
    (h : fittingCalls s a = true) : Calls t s a := by
  constructor
  · rintro m rfl
    have hfits : sizeofPacketHeader + m.pkt.length ≤ packetChunkSize := of_decide_eq_true h
    exact hfits
  · rintro rfl
    exact absurd h Bool.false_ne_true

theorem unpoisoned_firstRun :
    Unpoisoned true (machine.finalChecked fittingCalls (start : PacketConf Bool ℕ)
      (firstRun true 0) (by decide)) :=
  (unpoisoned_iff
    ((Machine.logged_finalChecked machine fittingCalls (serializations true) start
      (firstRun true 0) (by decide)).mono (calls_of_fittingCalls true))
    (List.isEmpty_iff.mp (by decide))).mpr (by decide)

/-- Thread `t` makes its first packet, in a new chunk `c`, and the serialization fails. -/
def failedRun {T C : Type} (t : T) (c : C) : List (Action T (Choice T C)) :=
  [.enter t (.makePacketBuffer ⟨7, [1, 2, 3]⟩), .step t .go] ++
    List.replicate 10 (.step t (.take none)) ++ [.step t (.malloc c)] ++
    List.replicate 6 (.step t .go) ++ [.step t (.serialized false), .step t .go, .step t .go]

/-- After one failure the next call of the thread has a null packet to write to. -/
theorem failed_packet_poisons : ∃ s : PacketConf Bool ℕ,
    machine.Logged (Calls true) (serializations true) start s [false] ∧ s.frames true = [] ∧
      ¬Unpoisoned true s ∧ ∃ s₁ s',
        machine.next s (.enter true (.makePacketBuffer ⟨8, [4]⟩)) = some s₁ ∧
        machine.Reach (Succeeds true) s₁ s' ∧ .header none ⟨8, [4]⟩ ∈ s'.frames true := by
  have hlogged := (Machine.logged_finalChecked machine fittingCalls (serializations true)
    (start : PacketConf Bool ℕ) (failedRun true 0) (by decide)).mono (calls_of_fittingCalls true)
  have hresults : machine.record (serializations true) (start : PacketConf Bool ℕ)
      (failedRun true 0) = [false] := by decide
  rw [hresults] at hlogged
  have hpoisoned := poisoned_of_failed hlogged (List.mem_singleton_self false)
  have hidle : (machine.finalChecked fittingCalls (start : PacketConf Bool ℕ) (failedRun true 0)
      (by decide)).frames true = [] := List.isEmpty_iff.mp (by decide)
  refine ⟨_, hlogged, hidle, fun h => h.notOpen hpoisoned.chunkOpen, ?_⟩
  exact hpoisoned.call_null hidle (by decide)

end ServerCore.Packets
